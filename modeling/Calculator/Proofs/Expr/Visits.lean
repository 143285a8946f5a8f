/-
Every sequence of an expression is evaluated once.

A sequence inside an expression is found by its address, the way to it from the root (`Expr.sites`). The log of an
evaluation has an entry for a sequence each time it is brought into order, so the log tells which sites evaluation
comes to (`Visits`): none twice, none before one that it is part of, and all of them if there is a value.

That evaluating keeps to sites is kept by sequencing (`Covers.bind`), so it is shown once for lists of arguments and
once for the stack machine, which puts operands on its stack unevaluated, each with the sites that evaluating it may
come to.

- `mem_sites_iff`: the sites of an expression are its parts that are sequences;
- `Covers.bind`: two steps that come to sites of their own come to all of these;
- `covers_runStack`: the stack machine evaluates every operand at most once, and all of them if it runs through;
- `eval_visits`: an evaluation visits the sites of its expression.
-/
import Calculator.Proofs.Expr.Lexemes
import Calculator.Proofs.Infix.Evaluable
import Mathlib.Data.List.Perm.Subperm

namespace Calculator

/-! ## Sites -/

/-- the way from the root of an expression to a part of it: which argument or element comes next -/
abbrev Address := List Nat

/-- a sequence, by its elements, and where it stands in an expression -/
structure Site where
  address : Address
  elements : List Expr

/-- the site as it is seen from one step further up -/
def Site.under (i : Nat) (s : Site) : Site := ⟨i :: s.address, s.elements⟩

theorem Site.under_injective (i : Nat) : Function.Injective (Site.under i) := by
  intro s t h
  simp only [Site.under, Site.mk.injEq, List.cons.injEq, true_and] at h
  obtain ⟨s, elements⟩ := s
  rw [Site.mk.injEq]
  exact h

namespace Expr

/-- the arguments of a call, and the elements of a sequence -/
def parts : Expr → List Expr
  | call _ arguments => arguments
  | sequence elements => elements
  | _ => []

/-- the part of an expression at an address -/
def at? : Address → Expr → Option Expr
  | [], e => some e
  | i :: address, e => (e.parts[i]?).bind (at? address)

mutual

/-- the sequences in an expression, itself included -/
def sites : Expr → List Site
  | call _ arguments => sitesFrom 0 arguments
  | sequence elements => ⟨[], elements⟩ :: sitesFrom 0 elements
  | _ => []

/-- the sequences in expressions that are parts of another one, from the part with number `i` on -/
def sitesFrom (i : Nat) : List Expr → List Site
  | [] => []
  | e :: es => e.sites.map (Site.under i) ++ sitesFrom (i + 1) es

end

theorem mem_sitesFrom_iff {i : Nat} {es : List Expr} {s : Site} :
    s ∈ sitesFrom i es ↔ ∃ (j : Nat) (e : Expr) (t : Site), es[j]? = some e ∧ t ∈ e.sites ∧ s = t.under (i + j) := by
  induction es generalizing i with
  | nil => simp [sitesFrom]
  | cons e es ih =>
    rw [sitesFrom, List.mem_append, List.mem_map, ih]
    constructor
    · intro h
      rcases h with ⟨t, ht, rfl⟩ | ⟨j, e', t, he', ht, rfl⟩
      · exact ⟨0, e, t, rfl, ht, rfl⟩
      · exact ⟨j + 1, e', t, he', ht, by rw [Nat.add_assoc, Nat.add_comm 1 j]⟩
    · intro h
      obtain ⟨j, e', t, he', ht, rfl⟩ := h
      cases j with
      | zero =>
        obtain rfl := Option.some.inj he'
        exact .inl ⟨t, ht, rfl⟩
      | succ j => exact .inr ⟨j, e', t, he', ht, by rw [Nat.add_assoc, Nat.add_comm 1 j]⟩

/-- The sites of an expression are its parts that are sequences. -/
theorem mem_sites_iff {e : Expr} {s : Site} : s ∈ e.sites ↔ e.at? s.address = some (.sequence s.elements) := by
  obtain ⟨address, elements⟩ := s
  -- The address is read from the root on, one part after the other.
  induction address generalizing e with
  | nil =>
    cases e <;> simp [sites, at?, mem_sitesFrom_iff, Site.under, eq_comm]
  | cons i address ih =>
    have hparts : ⟨i :: address, elements⟩ ∈ e.sites ↔ ⟨i :: address, elements⟩ ∈ sitesFrom 0 e.parts := by
      cases e <;> simp [sites, parts, sitesFrom]
    rw [hparts, mem_sitesFrom_iff, at?, Option.bind_eq_some_iff]
    constructor
    · intro h
      obtain ⟨j, part, t, hpart, ht, heq⟩ := h
      simp only [Site.under, Site.mk.injEq, List.cons.injEq, Nat.zero_add] at heq
      obtain ⟨⟨rfl, rfl⟩, rfl⟩ := heq
      exact ⟨part, hpart, ih.1 ht⟩
    · intro h
      obtain ⟨part, hpart, hat⟩ := h
      exact ⟨i, part, ⟨address, elements⟩, hpart, ih.2 hat, by simp [Site.under]⟩

end Expr

/-! ## Sites below others -/

/-- One site is not below another, nor the same. -/
def Site.NotBelow (s t : Site) : Prop := ¬ t.address <+: s.address

/-- Of two lists of sites, none in one is below one in the other. -/
def Separate (ss ts : List Site) : Prop := ∀ s ∈ ss, ∀ t ∈ ts, s.NotBelow t ∧ t.NotBelow s

section

variable {ss ts us : List Site}

theorem Site.NotBelow.under {s t : Site} (h : s.NotBelow t) (i : Nat) : (s.under i).NotBelow (t.under i) :=
  fun hbelow => h (List.cons_prefix_cons.1 hbelow).2

theorem Separate.symm (h : Separate ss ts) : Separate ts ss := fun t ht s hs => (h s hs t ht).symm

theorem separate_nil (ts : List Site) : Separate [] ts := fun _ hs => absurd hs List.not_mem_nil

theorem separate_append : Separate ss (ts ++ us) ↔ Separate ss ts ∧ Separate ss us := by
  simp only [Separate, List.forall_mem_append, forall_and]
  exact and_and_and_comm

end

/-- Parts that come one after the other are separate. -/
theorem separate_under {i j : Nat} (hij : i < j) (ss : List Site) (es : List Expr) :
    Separate (ss.map (Site.under i)) (Expr.sitesFrom j es) := by
  intro s hs t ht
  obtain ⟨s, -, rfl⟩ := List.mem_map.1 hs
  obtain ⟨k, -, t, -, -, rfl⟩ := Expr.mem_sitesFrom_iff.1 ht
  constructor
  · intro hbelow
    have := (List.cons_prefix_cons.1 hbelow).1
    omega
  · intro hbelow
    have := (List.cons_prefix_cons.1 hbelow).1
    omega

/-- A sequence is below none of its elements. -/
theorem notBelow_sitesFrom {i : Nat} {es elements : List Expr} {t : Site} (ht : t ∈ Expr.sitesFrom i es) :
    (⟨[], elements⟩ : Site).NotBelow t := by
  intro hbelow
  obtain ⟨j, -, t, -, -, rfl⟩ := Expr.mem_sitesFrom_iff.1 ht
  cases List.prefix_nil.1 hbelow

namespace Expr

theorem pairwise_sitesFrom {es : List Expr} (h : ∀ e ∈ es, e.sites.Pairwise Site.NotBelow) (i : Nat) :
    (sitesFrom i es).Pairwise Site.NotBelow := by
  induction es generalizing i with
  | nil => exact .nil
  | cons e es ih =>
    obtain ⟨he, hes⟩ := List.forall_mem_cons.1 h
    rw [sitesFrom, List.pairwise_append]
    exact ⟨List.pairwise_map.2 (he.imp fun hst => hst.under i), ih hes (i + 1),
      fun s hs t ht => (separate_under (Nat.lt_succ_self i) _ _ s hs t ht).1⟩

/-- The sites of an expression are listed from the outside in. -/
theorem pairwise_sites (e : Expr) : e.sites.Pairwise Site.NotBelow := by
  induction e using Expr.induct with
  | number value => exact .nil
  | var name => exact .nil
  | call name arguments ih => exact pairwise_sitesFrom ih 0
  | sequence elements ih =>
    refine .cons (fun t ht => ?_) (pairwise_sitesFrom ih 0)
    exact notBelow_sitesFrom ht
  | operator op => exact .nil

/-- No site is listed twice. -/
theorem nodup_sites (e : Expr) : e.sites.Nodup := by
  refine e.pairwise_sites.imp ?_
  rintro s _ hst rfl
  exact hst (List.prefix_refl _)

end Expr

/-! ## Visits -/

/-- `step` is the entry of the log for the sequence at a site, with its elements in postfix order. -/
def Site.Logs (s : Site) (step : OrderStep) : Prop :=
  step.sequence = s.elements ∧ postfixElements s.elements = .ok step.order

/-- which of some sites an evaluation visits, in the order of its log -/
structure Visits {α : Type} (x : Logged α) (sites visited : List Site) : Prop where
  entries : List.Forall₂ Site.Logs visited x.log
  /-- No site is visited twice. -/
  once : visited.Subperm sites
  /-- No site is visited before one that it is below. -/
  outerFirst : visited.Pairwise Site.NotBelow
  /-- If there is a value, all sites are visited. -/
  complete : ∀ a, x.result = .ok a → visited.Perm sites

/-- evaluating keeps to some sites -/
def Covers {α : Type} (x : Logged α) (sites : List Site) : Prop := ∃ visited, Visits x sites visited

section

variable {α β : Type} {x : Logged α} {ss ts : List Site}

theorem covers_of_log_eq_nil (h : x.log = []) : Covers x [] :=
  ⟨[], by rw [h]; exact .nil, List.Subperm.refl _, .nil, fun _ _ => .refl _⟩

theorem covers_fail (fault : EvalFault) (ss : List Site) : Covers (.fail fault : Logged α) ss :=
  ⟨[], .nil, List.nil_subperm, .nil, by simp [Logged.fail]⟩

theorem covers_ofExcept {ε : Type} (f : ε → EvalFault) (y : Except ε α) : Covers (Logged.ofExcept f y) [] := by
  cases y with
  | ok a => exact covers_of_log_eq_nil rfl
  | error e => exact covers_of_log_eq_nil rfl

theorem Covers.perm (h : Covers x ss) (hperm : ss.Perm ts) : Covers x ts := by
  obtain ⟨visited, hvisits⟩ := h
  exact ⟨visited, hvisits.entries, hvisits.once.trans hperm.subperm, hvisits.outerFirst,
    fun a ha => (hvisits.complete a ha).trans hperm⟩

theorem Covers.inside (h : Covers x ss) (frame : EvalFrame) : Covers (x.inside frame) ss := by
  obtain ⟨visited, hvisits⟩ := h
  exact ⟨visited, hvisits.entries, hvisits.once, hvisits.outerFirst,
    fun a ha => hvisits.complete a (mapError_eq_ok_iff.1 ha)⟩

/-- A site further down is still not below another one. -/
theorem Covers.under (h : Covers x ss) (i : Nat) : Covers x (ss.map (Site.under i)) := by
  obtain ⟨visited, hvisits⟩ := h
  refine ⟨visited.map (Site.under i), List.forall₂_map_left_iff.2 hvisits.entries,
    hvisits.once.map (Site.under_injective i), ?_, fun a ha => (hvisits.complete a ha).map _⟩
  exact List.pairwise_map.2 (hvisits.outerFirst.imp fun hst => hst.under i)

/-- **Sites of two steps.** A step that comes to some sites and a second step that comes to others, none of them above
those of the first, come to all of them. -/
theorem Covers.bind {f : α → Logged β} (hx : Covers x ss) (hf : ∀ a, x.result = .ok a → Covers (f a) ts)
    (hapart : ∀ s ∈ ss, ∀ t ∈ ts, s.NotBelow t) : Covers (x >>= f) (ss ++ ts) := by
  obtain ⟨visited, hvisits⟩ := hx
  cases hresult : x.result with
  | error e =>
    have hbind : x >>= f = ⟨x.log, .error e⟩ := by rw [Logged.bind_eq, hresult]
    rw [hbind]
    exact ⟨visited, hvisits.entries, hvisits.once.trans (List.sublist_append_left ss ts).subperm, hvisits.outerFirst,
      fun a ha => by cases ha⟩
  | ok a =>
    have hbind : x >>= f = ⟨x.log ++ (f a).log, (f a).result⟩ := by rw [Logged.bind_eq, hresult]
    obtain ⟨visited', hvisits'⟩ := hf a hresult
    rw [hbind]
    refine ⟨visited ++ visited', List.rel_append hvisits.entries hvisits'.entries,
      hvisits.once.append hvisits'.once, ?_, fun b hb => (hvisits.complete a hresult).append (hvisits'.complete b hb)⟩
    refine List.pairwise_append.2 ⟨hvisits.outerFirst, hvisits'.outerFirst, fun s hs t ht => ?_⟩
    exact hapart s (hvisits.once.subset hs) t (hvisits'.once.subset ht)

/-- A step that only gives a result comes to no site. -/
theorem Covers.bind_pure (hx : Covers x ss) (f : α → β) : Covers (x >>= fun a => pure (f a)) ss := by
  have hbind := hx.bind (f := fun a => pure (f a)) (fun _ _ => covers_of_log_eq_nil rfl) (by simp)
  rwa [List.append_nil] at hbind

/-- A step that writes no log comes to no site. -/
theorem Covers.bind_ofExcept {ε : Type} {f : α → Logged β} (fault : ε → EvalFault) (y : Except ε α)
    (hf : ∀ a, y = .ok a → Covers (f a) ts) : Covers (Logged.ofExcept fault y >>= f) ts := by
  refine (covers_ofExcept fault y).bind (fun a ha => hf a ?_) (by simp)
  cases y with
  | ok b => exact congrArg Except.ok (Except.ok.inj ha)
  | error e => cases ha

end

/-! ## The stack machine -/

/-- an operand with the sites that evaluating it may come to -/
abbrev SitedOperand := Operand × List Site

/-- Operands that come to sites of their own. -/
structure Sited (operands : List SitedOperand) : Prop where
  covers : ∀ o ∈ operands, Covers o.1.value o.2
  separate : operands.Pairwise fun o p => Separate o.2 p.2

theorem sited_cons {o : SitedOperand} {operands : List SitedOperand} :
    Sited (o :: operands) ↔
      Covers o.1.value o.2 ∧ Separate o.2 (operands.flatMap Prod.snd) ∧ Sited operands := by
  have hseparate : Separate o.2 (operands.flatMap Prod.snd) ↔ ∀ p ∈ operands, Separate o.2 p.2 := by
    induction operands with
    | nil => simpa using (separate_nil o.2).symm
    | cons p operands ih => rw [List.flatMap_cons, separate_append, ih, List.forall_mem_cons]
  rw [hseparate]
  constructor
  · intro h
    have hpairwise := List.pairwise_cons.1 h.separate
    exact ⟨h.covers o List.mem_cons_self, hpairwise.1, fun p hp => h.covers p (.tail _ hp), hpairwise.2⟩
  · intro h
    obtain ⟨hcovers, hpairwise, hrest⟩ := h
    exact ⟨List.forall_mem_cons.2 ⟨hcovers, hrest.covers⟩, .cons hpairwise hrest.separate⟩

theorem Sited.perm {operands operands' : List SitedOperand} (h : Sited operands) (hperm : operands.Perm operands') :
    Sited operands' :=
  ⟨fun o ho => h.covers o (hperm.mem_iff.2 ho), (hperm.pairwise_iff fun hop => hop.symm).1 h.separate⟩

/-- **The machine evaluates every operand at most once.** What stands on its stack and what it still has to read come
to sites of their own; then the machine comes to all of these, and to each of them once. -/
theorem covers_runStack (items : List (Item SitedOperand)) (stack : List SitedOperand)
    (h : Sited (stack ++ items.filterMap Item.operand?)) :
    Covers (runStack (stack.map Prod.fst) (items.map (Item.map Prod.fst)))
      ((stack ++ items.filterMap Item.operand?).flatMap Prod.snd) := by
  induction items generalizing stack with
  | nil =>
    rcases stack with _ | ⟨o, _ | ⟨p, stack⟩⟩
    · exact covers_fail _ _
    · rw [List.filterMap_nil, List.append_nil, List.flatMap_singleton]
      exact h.covers o List.mem_cons_self
    · exact covers_fail _ _
  | cons item items ih =>
    cases item with
    | operand o =>
      have hperm : (o :: stack ++ items.filterMap Item.operand?).Perm (stack ++ o :: items.filterMap Item.operand?) :=
        List.perm_middle.symm
      rw [List.map_cons, Item.map, runStack]
      exact (ih (o :: stack) (h.perm hperm.symm)).perm (hperm.flatMap_right Prod.snd)
    | operator op =>
      rcases stack with _ | ⟨b, _ | ⟨a, stack⟩⟩
      · exact covers_fail _ _
      · exact covers_fail _ _
      · have hskip : (Item.operator op :: items).filterMap Item.operand? = items.filterMap Item.operand? := rfl
        rw [hskip, List.cons_append, List.cons_append] at h ⊢
        obtain ⟨hb, hbelow, h⟩ := sited_cons.1 h
        obtain ⟨ha, hrest, h⟩ := sited_cons.1 h
        rw [List.flatMap_cons, separate_append] at hbelow
        rw [List.map_cons, List.map_cons, List.map_cons, Item.map, runStack, List.flatMap_cons, List.flatMap_cons]
        -- The lower operand is evaluated first.
        refine Covers.perm ?_ (List.perm_append_comm_assoc a.2 b.2 _)
        refine (ha.inside _).bind (fun x _ => (hb.inside _).bind (fun y _ => .bind_ofExcept id _ fun z _ => ?_) ?_) ?_
        -- The result is put on the stack with no sites, those of the two operands are behind.
        · exact ih ((⟨.number z, pure z⟩, []) :: stack)
            (sited_cons.2 ⟨covers_of_log_eq_nil rfl, separate_nil _, h⟩)
        · exact fun s hs t ht => (hbelow.2 s hs t ht).1
        · exact fun s hs t ht => ((separate_append.2 ⟨hbelow.1.symm, hrest⟩) s hs t ht).1

/-! ## Sequences and calls -/

section

variable {f : Expr → Logged Binary64} {es : List Expr}

/-- Arguments are evaluated once each, from left to right. -/
theorem covers_all (h : ∀ e ∈ es, Covers (f e) e.sites) (i : Nat) :
    Covers (Logged.all (es.map f)) (Expr.sitesFrom i es) := by
  induction es generalizing i with
  | nil => exact covers_of_log_eq_nil rfl
  | cons e es ih =>
    obtain ⟨he, hes⟩ := List.forall_mem_cons.1 h
    refine (he.under i).bind (fun x _ => ?_) fun s hs t ht => (separate_under (Nat.lt_succ_self i) _ _ s hs t ht).1
    exact (ih hes (i + 1)).bind_pure (x :: ·)

theorem covers_evalCall (env : Environment) (name : String) (h : ∀ e ∈ es, Covers (f e) e.sites) :
    Covers (evalCall env name (es.map f)) (Expr.sitesFrom 0 es) := by
  refine .bind_ofExcept .call _ fun callee _ => ?_
  split
  · exact (covers_all h 0).bind_pure callee.value
  · exact covers_fail _ _

/-- the elements of a sequence as items, each operand with the sites in it -/
def sitedItems (f : Expr → Logged Binary64) (i : Nat) : List Expr → List (Item SitedOperand)
  | [] => []
  | e :: es => e.item (⟨e, f e⟩, e.sites.map (Site.under i)) :: sitedItems f (i + 1) es

theorem map_fst_sitedItems (f : Expr → Logged Binary64) (i : Nat) (es : List Expr) :
    (sitedItems f i es).map (Item.map Prod.fst) = itemsOf (fun e => ⟨e, f e⟩) es := by
  induction es generalizing i with
  | nil => rfl
  | cons e es ih =>
    rw [sitedItems, List.map_cons, ih]
    cases e <;> rfl

/-- The sites of the operands are the sites of the elements: an operator has none. -/
theorem flatMap_sitedItems (f : Expr → Logged Binary64) (i : Nat) (es : List Expr) :
    ((sitedItems f i es).filterMap Item.operand?).flatMap Prod.snd = Expr.sitesFrom i es := by
  induction es generalizing i with
  | nil => rfl
  | cons e es ih =>
    rw [sitedItems, Expr.sitesFrom, ← ih]
    cases e <;> rfl

theorem sited_sitedItems (h : ∀ e ∈ es, Covers (f e) e.sites) (i : Nat) :
    Sited ((sitedItems f i es).filterMap Item.operand?) := by
  induction es generalizing i with
  | nil => exact ⟨by simp [sitedItems], .nil⟩
  | cons e es ih =>
    obtain ⟨he, hes⟩ := List.forall_mem_cons.1 h
    have hrest := ih hes (i + 1)
    by_cases hoperand : e.isOperand
    · have hitem : (sitedItems f i (e :: es)).filterMap Item.operand? =
          (⟨e, f e⟩, e.sites.map (Site.under i)) :: (sitedItems f (i + 1) es).filterMap Item.operand? := by
        cases e <;> first | rfl | cases hoperand
      rw [hitem, sited_cons, flatMap_sitedItems]
      exact ⟨he.under i, separate_under (Nat.lt_succ_self i) _ _, hrest⟩
    · obtain ⟨op, rfl⟩ := Expr.eq_operator_of_not_isOperand hoperand
      exact hrest

/-- **A sequence is logged, and then its operands are evaluated once each**, in the order that the machine comes to
them. -/
theorem covers_evalSequence (h : ∀ e ∈ es, Covers (f e) e.sites) :
    Covers (evalSequence es (es.map f)) (⟨[], es⟩ :: Expr.sitesFrom 0 es) := by
  rw [evalSequence, zipWith_item]
  refine .bind_ofExcept .unmatched _ fun items hitems => ?_
  have harrange : (arrange [] (sitedItems f 0 es)).map (List.map (Item.map Prod.fst)) = .ok items := by
    rw [← arrange_map, map_fst_sitedItems]
    exact hitems
  obtain ⟨out, hout, rfl⟩ := map_eq_ok_iff.1 harrange
  have hrecord : Covers (Logged.record ⟨es, (out.map (Item.map Prod.fst)).map (Item.expr Operand.expr)⟩)
      [⟨[], es⟩] := by
    refine ⟨[⟨[], es⟩], .cons ⟨rfl, ?_⟩ .nil, .refl _, List.pairwise_singleton _ _, fun _ _ => .refl _⟩
    obtain ⟨order, horder, hitems⟩ := map_eq_ok_iff.1 ((postfixOrder_itemsOf _ es).symm.trans hitems)
    rw [← hitems, map_expr_itemsOf _ _ fun _ => rfl]
    exact horder
  have hrun := covers_runStack out [] (by
    rw [List.nil_append, operands_arrange hout]
    exact sited_sitedItems h 0)
  rw [List.nil_append, operands_arrange hout, flatMap_sitedItems] at hrun
  refine hrecord.bind (fun _ _ => hrun) fun s hs t ht => ?_
  obtain rfl := List.mem_singleton.1 hs
  exact notBelow_sitesFrom ht

end

/-! ## Expressions -/

theorem Expr.covers_eval (env : Environment) (e : Expr) : Covers (e.eval env) e.sites := by
  induction e using Expr.induct with
  | number value => exact covers_of_log_eq_nil rfl
  | var name => exact covers_ofExcept _ _
  | call name arguments ih =>
    rw [eval, evalEach_eq_map]
    exact (covers_evalCall env name ih).inside _
  | sequence elements ih =>
    rw [eval, evalEach_eq_map]
    exact (covers_evalSequence ih).inside _
  | operator op => exact covers_fail _ _

/-- **Every sequence is evaluated once.** The entries of the log are those of sites of the expression, that is, of its
parts that are sequences: no site has two, and none has its entry before one that it is below. If the expression has a
value, every site has an entry. -/
theorem Expr.eval_visits (env : Environment) (e : Expr) :
    (∀ s : Site, s ∈ e.sites ↔ e.at? s.address = some (.sequence s.elements)) ∧ e.sites.Nodup ∧
      ∃ visited, Visits (e.eval env) e.sites visited :=
  ⟨fun _ => mem_sites_iff, e.nodup_sites, e.covers_eval env⟩

end Calculator
