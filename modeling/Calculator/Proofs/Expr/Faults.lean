/-
Where an evaluation fails, and the context of the error.

A fault is raised by one part of an expression, for reasons of its own (`Raises`). The parts between this one and the
root are those on the way to it, and the context of the error tells of each of them, from the inside out (`contextAt`):
a line for a sequence or a call, and one more for a part that was an operand of an operator. An operand that no operator
takes off the stack is evaluated at the end of the sequence, and has no such line.

- `runStack_error`: the machine fails by itself, at an operand that an operator takes, or at the one that is left;
- `FailsAt.of_part`: a failure of a part is one of the whole, with more context;
- `Expr.exists_failsAt`: every failure is raised by some part, and its context is that of the way to it;
- `Expr.context_is_path`, `parentheses_pair_or_refuse`: the context of an error, and what becomes of parentheses.
-/
import Calculator.Proofs.Expr.Visits
import Calculator.Proofs.Infix.Balance

namespace Calculator

/-! ## Operands of operators -/

/-- the operands that the operators of an order take off a stack, on which `none` is the result of an operator -/
def consumed {α : Type} : List (Option α) → List (Item α) → List α
  | stack, .operand a :: items => consumed (some a :: stack) items
  | b :: a :: stack, .operator _ :: items => a.toList ++ b.toList ++ consumed (none :: stack) items
  | _, _ => []

/-- the elements of a sequence as items, each operand with its number -/
def numbered (es : List Expr) : List (Item (Expr × Nat)) := es.zipIdx.map fun p => p.1.item p

namespace Expr

/-- the numbers of the elements of a sequence that its operators take as operands -/
def consumedParts : Expr → List Nat
  | sequence es =>
    match postfixOrder (numbered es) with
    | .ok order => (consumed [] order).map Prod.snd
    | .error _ => []
  | _ => []

/-! ## Context and cause -/

/-- the line of a sequence or a call -/
def ownFrames : Expr → List EvalFrame
  | call name arguments => [.node (call name arguments)]
  | sequence elements => [.node (sequence elements)]
  | _ => []

/-- The context of an error at an address, innermost first: for every part on the way its own line, and behind it one
more if the part is an operand of an operator of the sequence around it. -/
def contextAt : Address → Expr → List EvalFrame
  | [], e => e.ownFrames
  | i :: address, e =>
    match e.parts[i]? with
    | some part =>
      contextAt address part ++ (if i ∈ e.consumedParts then [.operand part] else []) ++ e.ownFrames
    | none => []

end Expr

/-- An expression is at fault itself, whatever its parts are. -/
inductive Raises (env : Environment) : Expr → EvalFault → Prop where
  | undeclared {name : String} (h : env.lookup? name = none) : Raises env (.var name) (.undeclared name)
  | bareOperator (op : Operator) : Raises env (.operator op) (.bareOperator op)
  | unmatched {es : List Expr} {side : Unmatched} (h : postfixElements es = .error side) :
      Raises env (.sequence es) (.unmatched side)
  | missingOperand {es order : List Expr} {op : Operator} (h : postfixElements es = .ok order)
      (hshort : FirstShort 0 order op) : Raises env (.sequence es) (.missingOperand op)
  | invalidExpression {es order : List Expr} (h : postfixElements es = .ok order)
      (hshort : ∀ op, ¬ FirstShort 0 order op) (hbalance : balance order ≠ 1) :
      Raises env (.sequence es) .invalidExpression
  | callee {name : String} {arguments : List Expr} {fault : CallFault} (h : env.callee name = .error fault) :
      Raises env (.call name arguments) (.call fault)
  | wrongArity {name : String} {arguments : List Expr} {callee : Callee} (h : env.callee name = .ok callee)
      (harity : callee.arity.accepts arguments.length = false) :
      Raises env (.call name arguments) (.wrongArity callee arguments.length)

/-- An error was raised by a part of an expression, and its context is that of the way there. -/
def FailsAt (env : Environment) (e : Expr) (err : EvalError) : Prop :=
  ∃ address node, e.at? address = some node ∧ Raises env node err.fault ∧ err.context = e.contextAt address

section

variable {env : Environment} {e part : Expr} {i : Nat}

theorem Raises.failsAt {fault : EvalFault} (h : Raises env e fault) : FailsAt env e ⟨fault, e.ownFrames⟩ :=
  ⟨[], e, rfl, h, rfl⟩

/-- The way to a part of a part starts with the number of the part. -/
theorem FailsAt.of_part {err : EvalError} (hpart : e.parts[i]? = some part) (h : FailsAt env part err) :
    FailsAt env e ⟨err.fault,
      err.context ++ (if i ∈ e.consumedParts then [.operand part] else []) ++ e.ownFrames⟩ := by
  obtain ⟨address, node, hat, hraises, hcontext⟩ := h
  refine ⟨i :: address, node, ?_, hraises, ?_⟩
  · rw [Expr.at?, hpart]
    exact hat
  · rw [Expr.contextAt, hpart, hcontext]

end

/-! ## Errors of steps -/

namespace Logged

variable {α β : Type}

theorem result_bind (x : Logged α) (f : α → Logged β) : (x >>= f).result = x.result >>= fun a => (f a).result := by
  obtain ⟨log, _ | a⟩ := x <;> rfl

theorem result_inside (frame : EvalFrame) (x : Logged α) :
    (x.inside frame).result = x.result.mapError (EvalError.inside frame) := rfl

theorem result_ofExcept {ε : Type} (f : ε → EvalFault) (x : Except ε α) :
    (ofExcept f x).result = x.mapError fun e => ⟨f e, []⟩ := by
  cases x <;> rfl

end Logged

/-! ## The stack machine -/

section

variable {α : Type} (f : α → Operand)

/-- an entry of the stack: an operand, or the result of an operator -/
def entry : α ⊕ Binary64 → Operand
  | .inl a => f a
  | .inr z => ⟨.number z, pure z⟩

/-- how the machine fails on a stack, on which `none` is the result of an operator -/
inductive StackError (stack : List (Option α)) (items : List (Item α)) : EvalError → Prop where
  /-- at an operator that lacks an operand, or at the end -/
  | machine {fault : EvalFault} (h : stackFault? stack.length items = some fault) : StackError stack items ⟨fault, []⟩
  /-- at an operand of an operator -/
  | operand {a : α} {err : EvalError} (ha : a ∈ consumed stack items) (h : (f a).value.result = .error err) :
      StackError stack items (err.inside (.operand (f a).expr))
  /-- at the operand that is left at the end, if there was no operator -/
  | last {a : α} {err : EvalError} (ha : some a ∈ stack ∨ .operand a ∈ items) (hstack : none ∉ stack)
      (hitems : consumed stack items = []) (h : (f a).value.result = .error err) : StackError stack items err

variable {f} {stack : List (Option α)} {items : List (Item α)} {err : EvalError}

theorem mem_of_mem_consumed {a : α} (h : a ∈ consumed stack items) : some a ∈ stack ∨ .operand a ∈ items := by
  fun_induction consumed stack items with
  | case1 stack b items ih =>
    rcases ih h with hstack | hitems
    · rcases List.mem_cons.1 hstack with heq | hstack
      · exact .inr (Option.some.inj heq ▸ List.mem_cons_self)
      · exact .inl hstack
    · exact .inr (.tail _ hitems)
  | case2 b c stack op items ih =>
    rw [List.mem_append, List.mem_append, Option.mem_toList, Option.mem_toList] at h
    rcases h with (hc | hb) | hrest
    · exact .inl (.tail _ (hc ▸ List.mem_cons_self))
    · exact .inl (hb ▸ List.mem_cons_self)
    · rcases ih hrest with hstack | hitems
      · rcases List.mem_cons.1 hstack with heq | hstack
        · cases heq
        · exact .inl (.tail _ (.tail _ hstack))
      · exact .inr (.tail _ hitems)
  | case3 => cases h

theorem StackError.push {a : α} (h : StackError f (some a :: stack) items err) :
    StackError f stack (.operand a :: items) err := by
  cases h with
  | machine h => exact .machine h
  | operand ha h => exact .operand ha h
  | @last b _ hb hstack hitems h =>
    refine .last ?_ (fun hnone => hstack (.tail _ hnone)) hitems h
    rcases hb with hb | hb
    · rcases List.mem_cons.1 hb with heq | hb
      · exact .inr (Option.some.inj heq ▸ List.mem_cons_self)
      · exact .inl hb
    · exact .inr (.tail _ hb)

theorem StackError.apply {a b : Option α} {op : Operator} (h : StackError f (none :: stack) items err) :
    StackError f (b :: a :: stack) (.operator op :: items) err := by
  cases h with
  | machine h => exact .machine h
  | operand ha h => exact .operand (List.mem_append_right _ ha) h
  | last _ hstack _ _ => exact absurd List.mem_cons_self hstack

/-- What is taken off the stack fails only if it is an operand. -/
theorem exists_operand_of_error {x : α ⊕ Binary64} (h : (entry f x).value.result = .error err) :
    ∃ a, x = .inl a ∧ (f a).value.result = .error err := by
  cases x with
  | inl a => exact ⟨a, rfl, h⟩
  | inr z => cases h

/-- **How the machine fails.** -/
theorem runStack_error (hop : ∀ op, .operator op ∈ items → op.isParen = false) (stack : List (α ⊕ Binary64))
    (h : (runStack (stack.map (entry f)) (items.map (Item.map f))).result = .error err) :
    StackError f (stack.map Sum.getLeft?) items err := by
  induction items generalizing stack with
  | nil =>
    rcases stack with _ | ⟨x, _ | ⟨y, stack⟩⟩
    · cases h
      exact .machine rfl
    · obtain ⟨a, rfl, ha⟩ := exists_operand_of_error h
      exact .last (.inl List.mem_cons_self) (by simp) rfl ha
    · cases h
      exact .machine rfl
  | cons item items ih =>
    have hrest := ih fun op ho => hop op (.tail _ ho)
    cases item with
    | operand a =>
      rw [List.map_cons, Item.map, runStack] at h
      exact (hrest (.inl a :: stack) h).push
    | operator op =>
      rcases stack with _ | ⟨y, _ | ⟨x, stack⟩⟩
      · cases h
        exact .machine rfl
      · cases h
        exact .machine rfl
      · simp only [List.map_cons, Item.map, runStack, Logged.result_bind, bind_eq_error_iff, Logged.result_inside,
          mapError_eq_error_iff] at h
        rcases h with ⟨e, hx, rfl⟩ | ⟨x', -, ⟨e, hy, rfl⟩ | ⟨y', -, happly | ⟨z, -, h⟩⟩⟩
        · obtain ⟨a, rfl, ha⟩ := exists_operand_of_error hx
          exact .operand (List.mem_append_left _ (List.mem_append_left _ (List.mem_singleton_self a))) ha
        · obtain ⟨b, rfl, hb⟩ := exists_operand_of_error hy
          exact .operand (List.mem_append_left _ (List.mem_append_right _ (List.mem_singleton_self b))) hb
        · obtain ⟨g, hg⟩ := Operator.exists_function (hop op List.mem_cons_self)
          rw [Operator.apply, hg] at happly
          cases happly
        · exact (hrest (.inr z :: stack) h).apply

end

/-! ## Sequences and calls -/

theorem map_numbered {α : Type} (f : Expr → α) (es : List Expr) :
    (numbered es).map (Item.map fun p => f p.1) = itemsOf f es := by
  calc (numbered es).map (Item.map fun p => f p.1)
      = es.zipIdx.map fun p => p.1.item (f p.1) := by
        rw [numbered, List.map_map]
        refine List.map_congr_left fun p _ => ?_
        obtain ⟨e, i⟩ := p
        cases e <;> rfl
    _ = itemsOf f (es.zipIdx.map Prod.fst) := by
        rw [itemsOf, List.map_map]
        rfl
    _ = itemsOf f es := by rw [List.zipIdx_map_fst]

/-- An order of operands is the order of their numbers. -/
theorem postfixOrder_eq_numbered {α : Type} (f : Expr → α) (es : List Expr) :
    postfixOrder (itemsOf f es) = (postfixOrder (numbered es)).map (List.map (Item.map fun p => f p.1)) := by
  rw [← map_numbered]
  exact arrange_map _ _ _

theorem getElem?_of_operand_mem_numbered {es : List Expr} {p : Expr × Nat} (h : .operand p ∈ numbered es) :
    es[p.2]? = some p.1 := by
  obtain ⟨⟨e, i⟩, hq, hitem⟩ := List.mem_map.1 h
  have hp : (e, i) = p := by cases e <;> cases hitem <;> rfl
  rw [← hp]
  exact List.mem_zipIdx_iff_getElem?.1 hq

section

variable {env : Environment} {err : EvalError}

/-- What the height of the stack finds wrong is a fault of the sequence. -/
theorem Raises.of_stackFault? {es order : List Expr} (horder : postfixElements es = .ok order) {fault : EvalFault}
    (h : stackFault? 0 (itemsOf id order) = some fault) : Raises env (.sequence es) fault := by
  by_cases hshort : ∃ op, FirstShort 0 order op
  · obtain ⟨op, hop⟩ := hshort
    have hfault : stackFault? 0 (itemsOf id order) = some (.missingOperand op) :=
      (stackFault?_eq_missingOperand_iff id).2 hop
    obtain rfl := Option.some.inj (hfault.symm.trans h)
    exact .missingOperand horder hop
  · rw [not_exists] at hshort
    rw [stackFault?_zero id hshort] at h
    split at h
    · cases h
    · rename_i hbalance
      cases h
      exact .invalidExpression horder hshort hbalance

/-- A sequence fails by itself, or where one of its elements does. -/
theorem evalSequence_error {es : List Expr} (h : (evalSequence es (es.map (Expr.eval env))).result = .error err) :
    (err.context = [] ∧ Raises env (.sequence es) err.fault) ∨
      ∃ (i : Nat) (part : Expr) (inner : EvalError), es[i]? = some part ∧ (part.eval env).result = .error inner ∧
        err = ⟨inner.fault,
          inner.context ++ if i ∈ (Expr.sequence es).consumedParts then [.operand part] else []⟩ := by
  -- The order of the elements, and that of the elements with their numbers.
  have harrange := postfixOrder_itemsOf (fun e => (⟨e, e.eval env⟩ : Operand)) es
  have hnumbered := postfixOrder_eq_numbered (fun e => (⟨e, e.eval env⟩ : Operand)) es
  rw [evalSequence, zipWith_item, Logged.result_bind, Logged.result_ofExcept, bind_eq_error_iff] at h
  rcases h with horder | ⟨items, horder, hrun⟩
  · obtain ⟨side, hside, rfl⟩ := mapError_eq_error_iff.1 horder
    exact .inl ⟨rfl, .unmatched (map_eq_error_iff.1 (harrange.symm.trans hside))⟩
  · rw [mapError_eq_ok_iff] at horder
    obtain ⟨order, horder', hitems⟩ := map_eq_ok_iff.1 (harrange.symm.trans horder)
    obtain ⟨out, hout, rfl⟩ := map_eq_ok_iff.1 (hnumbered.symm.trans horder)
    have hparts : (Expr.sequence es).consumedParts = (consumed [] out).map Prod.snd := by
      rw [Expr.consumedParts, hout]
    have hpart : ∀ p, .operand p ∈ out → es[p.2]? = some p.1 := fun p hp =>
      getElem?_of_operand_mem_numbered (operand_mem_of_arrange hout hp)
    have hstop := runStack_error (fun op hop => not_isParen_of_mem_arrange (by simp) hout hop) [] hrun
    rw [List.map_nil] at hstop
    cases hstop with
    | machine hheight =>
      rw [← stackFault?_map, ← hitems, itemsOf_eq_map, stackFault?_map] at hheight
      exact .inl ⟨rfl, .of_stackFault? horder' hheight⟩
    | @operand p inner hp hvalue =>
      have hmem : p.2 ∈ (Expr.sequence es).consumedParts := hparts ▸ List.mem_map_of_mem hp
      have hp' := (mem_of_mem_consumed hp).resolve_left List.not_mem_nil
      exact .inr ⟨p.2, p.1, inner, hpart p hp', hvalue, by rw [if_pos hmem]; rfl⟩
    | @last p _ hp _ hnone hvalue =>
      have hnotMem : p.2 ∉ (Expr.sequence es).consumedParts := by simp [hparts, hnone]
      have hp' := hp.resolve_left List.not_mem_nil
      exact .inr ⟨p.2, p.1, err, hpart p hp', hvalue, by rw [if_neg hnotMem, List.append_nil]⟩

theorem all_error {f : Expr → Logged Binary64} {es : List Expr} (h : (Logged.all (es.map f)).result = .error err) :
    ∃ (i : Nat) (part : Expr), es[i]? = some part ∧ (f part).result = .error err := by
  induction es with
  | nil => cases h
  | cons e es ih =>
    rw [List.map_cons, Logged.all, Logged.result_bind, bind_eq_error_iff] at h
    rcases h with he | ⟨x, -, hrest⟩
    · exact ⟨0, e, rfl, he⟩
    · rw [Logged.result_bind, bind_eq_error_iff] at hrest
      rcases hrest with hes | ⟨xs, -, hpure⟩
      · obtain ⟨i, part, hpart, hfails⟩ := ih hes
        exact ⟨i + 1, part, hpart, hfails⟩
      · cases hpure

/-- A call fails by itself, or where its first argument that has no value does. -/
theorem evalCall_error {name : String} {es : List Expr}
    (h : (evalCall env name (es.map (Expr.eval env))).result = .error err) :
    (err.context = [] ∧ Raises env (.call name es) err.fault) ∨
      ∃ (i : Nat) (part : Expr), es[i]? = some part ∧ (part.eval env).result = .error err := by
  rw [evalCall, Logged.result_bind, Logged.result_ofExcept, bind_eq_error_iff] at h
  rcases h with hcallee | ⟨callee, hcallee, h⟩
  · obtain ⟨fault, hfault, rfl⟩ := mapError_eq_error_iff.1 hcallee
    exact .inl ⟨rfl, .callee hfault⟩
  · rw [mapError_eq_ok_iff] at hcallee
    rw [List.length_map] at h
    split at h
    · rw [Logged.result_bind, bind_eq_error_iff] at h
      rcases h with hall | ⟨xs, -, hpure⟩
      · exact .inr (all_error hall)
      · cases hpure
    · rename_i harity
      cases h
      exact .inl ⟨rfl, .wrongArity hcallee (by simpa using harity)⟩

end

/-! ## Expressions -/

/-- **Every failure is raised by some part**, and its context is that of the way there. -/
theorem Expr.exists_failsAt {env : Environment} {e : Expr} {err : EvalError} (h : (e.eval env).result = .error err) :
    FailsAt env e err := by
  induction e using Expr.induct generalizing err with
  | number value => cases h
  | var name =>
    rw [eval] at h
    cases hlookup : env.lookup? name with
    | none =>
      rw [hlookup] at h
      cases h
      exact (Raises.undeclared hlookup).failsAt
    | some value =>
      rw [hlookup] at h
      cases h
  | call name arguments ih =>
    rw [eval, evalEach_eq_map, Logged.result_inside, mapError_eq_error_iff] at h
    obtain ⟨inner, hcall, rfl⟩ := h
    rcases evalCall_error hcall with ⟨hcontext, hraises⟩ | ⟨i, part, hpart, hfails⟩
    · rw [EvalError.inside, hcontext]
      exact hraises.failsAt
    · have hwhole := FailsAt.of_part (e := .call name arguments) hpart (ih part (List.mem_of_getElem? hpart) hfails)
      rwa [if_neg (by simp [consumedParts]), List.append_nil] at hwhole
  | sequence elements ih =>
    rw [eval, evalEach_eq_map, Logged.result_inside, mapError_eq_error_iff] at h
    obtain ⟨inner, hsequence, rfl⟩ := h
    rcases evalSequence_error hsequence with ⟨hcontext, hraises⟩ | ⟨i, part, inner, hpart, hfails, rfl⟩
    · rw [EvalError.inside, hcontext]
      exact hraises.failsAt
    · exact FailsAt.of_part (e := .sequence elements) hpart (ih part (List.mem_of_getElem? hpart) hfails)
  | operator op =>
    cases h
    exact (Raises.bareOperator op).failsAt

/-- What a context quotes are parts on the way to the address. -/
theorem Expr.mem_contextAt {address : Address} {e : Expr} {frame : EvalFrame} (h : frame ∈ e.contextAt address) :
    ∃ before part, before <+: address ∧ e.at? before = some part ∧ (frame = .node part ∨ frame = .operand part) := by
  have hown : ∀ {e : Expr}, frame ∈ e.ownFrames → frame = .node e := by
    intro e h
    cases e <;> simp_all [ownFrames]
  induction address generalizing e with
  | nil => exact ⟨[], e, List.prefix_refl _, rfl, .inl (hown h)⟩
  | cons i address ih =>
    rw [contextAt] at h
    split at h
    · rename_i part hpart
      rcases List.mem_append.1 h with h | h
      · rcases List.mem_append.1 h with h | h
        · obtain ⟨before, inner, hbefore, hat, hframe⟩ := ih h
          exact ⟨i :: before, inner, List.cons_prefix_cons.2 ⟨rfl, hbefore⟩, by rw [at?, hpart]; exact hat, hframe⟩
        · split at h
          · obtain rfl := List.mem_singleton.1 h
            exact ⟨[i], part, List.cons_prefix_cons.2 ⟨rfl, List.nil_prefix⟩, by rw [at?, hpart]; rfl, .inr rfl⟩
          · cases h
      · exact ⟨[], e, List.nil_prefix, rfl, .inl (hown h)⟩
    · cases h

theorem Expr.getLast?_contextAt {address : Address} {elements : List Expr} {node : Expr}
    (h : (sequence elements).at? address = some node) :
    ((sequence elements).contextAt address).getLast? = some (.node (sequence elements)) := by
  cases address with
  | nil => rfl
  | cons i address =>
    rw [at?, Option.bind_eq_some_iff] at h
    obtain ⟨part, hpart, -⟩ := h
    rw [contextAt, hpart]
    simp [ownFrames]

/-- **The context of an error is the way to the fault.** If the evaluation of an expression fails, there is a way from
the root to a part that is at fault itself. The context, innermost first, has for every part on this way its line if it
is a sequence or a call, followed by the line of an operand exactly if an operator of the sequence around it took it.
Every line quotes the text of a part on the way, and the last one that of the root, if the root is a sequence. -/
theorem Expr.context_is_path {env : Environment} {e : Expr} {err : EvalError}
    (h : (e.eval env).result = .error err) :
    ∃ address node, e.at? address = some node ∧ Raises env node err.fault ∧ err.context = e.contextAt address ∧
      (∀ frame ∈ err.context, ∃ before part, before <+: address ∧ e.at? before = some part ∧
        (frame.message = s!"while evaluating: `{String.ofList part.text}`" ∨
          frame.message = s!"while evaluating operand: `{String.ofList part.text}`")) ∧
      ∀ elements, e = sequence elements → err.context.getLast? = some (.node e) := by
  obtain ⟨address, node, hat, hraises, hcontext⟩ := exists_failsAt h
  refine ⟨address, node, hat, hraises, hcontext, fun frame hframe => ?_, ?_⟩
  · rw [hcontext] at hframe
    obtain ⟨before, part, hbefore, hpart, hquotes⟩ := mem_contextAt hframe
    refine ⟨before, part, hbefore, hpart, hquotes.imp ?_ ?_⟩
    · rintro rfl
      rfl
    · rintro rfl
      rfl
  · rintro elements rfl
    rw [hcontext]
    exact getLast?_contextAt hat

/-- `2 * x` -/
def doubled : Expr := .sequence [.number (.ofNat 2), .operator .multiply, .var "x"]

/-- `1 - sqrt(2 * x)` -/
def rootDifference : Expr := .sequence [.number (.ofNat 1), .operator .subtract, .call "sqrt" [doubled]]

def rootError : EvalError :=
  ⟨.undeclared "x", [.operand (.var "x"), .node doubled, .node (.call "sqrt" [doubled]),
    .operand (.call "sqrt" [doubled]), .node rootDifference]⟩

/-- The name has a line as an operand only, the argument of the call as a sequence only, and the call has both. -/
theorem context_is_path_rootDifference :
    (rootDifference.eval {}).result = .error rootError ∧
      rootError.context.map EvalFrame.message =
        ["while evaluating operand: `x`", "while evaluating: `2 * x`", "while evaluating: `sqrt(2 * x)`",
          "while evaluating operand: `sqrt(2 * x)`", "while evaluating: `1 - sqrt(2 * x)`"] ∧
      ∃ address node, rootDifference.at? address = some node ∧ Raises {} node rootError.fault ∧
        rootError.context = rootDifference.contextAt address := by
  have heval : (rootDifference.eval {}).result = .error rootError := rfl
  obtain ⟨address, node, hat, hraises, hcontext, -, -⟩ := Expr.context_is_path heval
  exact ⟨heval, by decide +kernel, address, node, hat, hraises, hcontext⟩

/-! ## Parentheses -/

/-- No parenthesis is applied to numbers: none is in an order. -/
theorem Expr.outcome_ne_notApplicable (env : Environment) (e : Expr) (op : Operator) :
    e.outcome env ≠ .error (.notApplicable op) := by
  intro h
  obtain ⟨err, herr, hfault⟩ := mapError_eq_error_iff.1 h
  obtain ⟨_, _, -, hraises, -⟩ := exists_failsAt herr
  rw [hfault] at hraises
  cases hraises

/-- **Parentheses pair, or the order is refused.** A closing parenthesis is unmatched exactly if some beginning of the
sequence closes more than it opens; if none does, an opening one is unmatched exactly if the whole opens more than it
closes; otherwise there is an order without parentheses, with the operands as they stand in the sequence, and with every
other operator as often as it is there. So no evaluation comes to apply a parenthesis. -/
theorem parentheses_pair_or_refuse :
    (∀ es : List Expr,
      (postfixElements es = .error .right ↔ Overclosed 0 es) ∧
        (¬ Overclosed 0 es → (postfixElements es = .error .left ↔ closings es < openings es)) ∧
        (¬ Overclosed 0 es → ¬ closings es < openings es →
          ∃ order, postfixElements es = .ok order ∧ (∀ op, .operator op ∈ order → op.isParen = false) ∧
            order.filter Expr.isOperand = es.filter Expr.isOperand ∧
            ∀ op, op.isParen = false → order.countP (Expr.isOperator op) = es.countP (Expr.isOperator op))) ∧
      ∀ (env : Environment) (e : Expr) (op : Operator), e.outcome env ≠ .error (.notApplicable op) := by
  refine ⟨fun es => ⟨postfixElements_eq_right_iff es, fun hclosed => ?_, fun hclosed heven => ?_⟩,
    Expr.outcome_ne_notApplicable⟩
  · rw [postfixElements_eq_left_iff]
    exact and_iff_right hclosed
  · obtain ⟨order, horder⟩ := (exists_postfixElements_iff es).2 (.of_not_lt hclosed heven)
    refine ⟨order, horder, fun op => not_isParen_of_mem_order horder, filter_postfixElements horder, fun op hop => ?_⟩
    have hleft : Expr.isOperator op (.operator .leftParen) = false := by cases op <;> first | rfl | cases hop
    have hright : Expr.isOperator op (.operator .rightParen) = false := by cases op <;> first | rfl | cases hop
    exact countP_postfixElements hleft hright horder

end Calculator
