/-
Well-formed sequences, read from left to right.

`IsInfix` builds a sequence from its parts. Read from left to right, a well-formed sequence awaits an operand and what
comes behind one by turns (`Alternates`), and its parentheses are paired (`Paired`). A sequence in which no operand
stands right behind another (`Apart`) has at most one operand more than it has operators between operands.

- `isInfix_iff_alternates`: the sequences that alternate and have paired parentheses are the well-formed ones;
- `Apart.alternates`: a sequence without operands side by side, with one operand more than operators, alternates.
-/
import Calculator.Proofs.Infix.Grouping

namespace Calculator

/-! ## Elements -/

namespace Expr

/-- an element that an operand starts with: an operand, or the parenthesis that opens a group -/
def startsOperand : Expr → Bool
  | operator op => op == .leftParen
  | _ => true

/-- an element that an operand ends with: an operand, or the parenthesis that closes a group -/
def endsOperand : Expr → Bool
  | operator op => op == .rightParen
  | _ => true

/-- an operator between two operands -/
def isConnective : Expr → Bool
  | operator op => !op.isParen
  | _ => false

theorem eq_operator_of_not_isOperand {e : Expr} (h : ¬ e.isOperand) : ∃ op, e = operator op := by
  cases e with
  | operator op => exact ⟨op, rfl⟩
  | _ => exact absurd rfl h

theorem kinds (e : Expr) : e.isOperand ∨ e = operator .leftParen ∨ e = operator .rightParen ∨
    ∃ op, op.isParen = false ∧ e = operator op := by
  by_cases h : e.isOperand
  · exact .inl h
  obtain ⟨op, rfl⟩ := eq_operator_of_not_isOperand h
  cases op with
  | leftParen => exact .inr (.inl rfl)
  | rightParen => exact .inr (.inr (.inl rfl))
  | _ => exact .inr (.inr (.inr ⟨_, rfl, rfl⟩))

section

variable {e : Expr} (h : e.isOperand)

include h

theorem startsOperand_of_isOperand : e.startsOperand = true := by cases e <;> first | rfl | cases h

theorem endsOperand_of_isOperand : e.endsOperand = true := by cases e <;> first | rfl | cases h

theorem isConnective_of_isOperand : e.isConnective = false := by cases e <;> first | rfl | cases h

end

section

variable {op : Operator} (h : op.isParen = false)

include h

theorem startsOperand_connective : (operator op).startsOperand = false := by cases op <;> first | rfl | cases h

theorem endsOperand_connective : (operator op).endsOperand = false := by cases op <;> first | rfl | cases h

end

end Expr

/-! ## Well-formed sequences -/

/-- elements by turns: one that starts an operand where one is awaited, and one that starts none behind an operand -/
def Alternates : Bool → List Expr → Prop
  | afterOperand, [] => afterOperand = true
  | afterOperand, e :: es => e.startsOperand = !afterOperand ∧ Alternates e.endsOperand es

/-- with some parentheses open in front, every closing parenthesis has an opening one, and none is left open -/
def Paired : Nat → List Expr → Prop
  | depth, [] => depth = 0
  | depth, .operator .leftParen :: es => Paired (depth + 1) es
  | 0, .operator .rightParen :: _ => False
  | depth + 1, .operator .rightParen :: es => Paired depth es
  | depth, _ :: es => Paired depth es

theorem paired_operand {e : Expr} (h : e.isOperand) (depth : Nat) (es : List Expr) :
    Paired depth (e :: es) ↔ Paired depth es := by
  cases e with
  | operator op => cases h
  | _ => simp only [Paired]

theorem paired_connective {op : Operator} (h : op.isParen = false) (depth : Nat) (es : List Expr) :
    Paired depth (.operator op :: es) ↔ Paired depth es := by
  cases op with
  | leftParen => cases h
  | rightParen => cases h
  | _ => simp only [Paired]

section

variable {es : List Expr}

theorem IsInfix.alternates_append (h : IsInfix es) (rest : List Expr) (hrest : Alternates true rest) :
    Alternates false (es ++ rest) := by
  induction h generalizing rest with
  | operand h => exact ⟨Expr.startsOperand_of_isOperand h, Expr.endsOperand_of_isOperand h ▸ hrest⟩
  | @binary op es fs hop _ _ ihl ihr =>
    rw [List.append_assoc]
    refine ihl _ ⟨Expr.startsOperand_connective hop, ?_⟩
    rw [Expr.endsOperand_connective hop]
    exact ihr rest hrest
  | @group es _ ih =>
    rw [List.cons_append, List.append_assoc]
    exact ⟨rfl, ih _ ⟨rfl, hrest⟩⟩

theorem IsInfix.paired_append (h : IsInfix es) (depth : Nat) (rest : List Expr) :
    Paired depth (es ++ rest) ↔ Paired depth rest := by
  induction h generalizing depth rest with
  | operand h => exact paired_operand h depth rest
  | @binary op es fs hop _ _ ihl ihr =>
    rw [List.append_assoc, ihl, List.cons_append, paired_connective hop, ihr]
  | @group es _ ih =>
    rw [List.cons_append, List.append_assoc]
    exact ih (depth + 1) ([.operator .rightParen] ++ rest)

/-- what stands behind `depth` opening parentheses: each group is closed, and the last one completes a sequence -/
def Completes : Nat → List Expr → Prop
  | 0, es => IsInfix es
  | depth + 1, es => ∃ inner rest, es = inner ++ .operator .rightParen :: rest ∧ IsInfix inner ∧
      ∀ group, IsInfix group → Completes depth (group ++ rest)

/-- Reading goes on from the beginning of a sequence that awaits an operand, or from a sequence that is complete. -/
theorem completes_of_alternates (es : List Expr) :
    (∀ depth before, (∀ fs, IsInfix fs → IsInfix (before ++ fs)) → Alternates false es → Paired depth es →
      Completes depth (before ++ es)) ∧
    ∀ depth before, IsInfix before → Alternates true es → Paired depth es → Completes depth (before ++ es) := by
  induction es with
  | nil =>
    refine ⟨fun depth before _ halt _ => absurd halt Bool.false_ne_true, fun depth before hbefore _ hpaired => ?_⟩
    rw [Paired] at hpaired
    subst hpaired
    rwa [List.append_nil]
  | cons e es ih =>
    obtain ⟨ihAwaits, ihComplete⟩ := ih
    rcases e.kinds with he | rfl | rfl | ⟨op, hop, rfl⟩
    · -- An operand completes what was begun.
      refine ⟨fun depth before hbefore halt hpaired => ?_, fun depth before _ halt _ => ?_⟩
      · have hnext := ihComplete depth _ (hbefore _ (.operand he)) (Expr.endsOperand_of_isOperand he ▸ halt.2)
          ((paired_operand he depth es).1 hpaired)
        rwa [List.append_assoc] at hnext
      · exact absurd (halt.1.symm.trans (Expr.startsOperand_of_isOperand he)) Bool.false_ne_true
    · -- A group is an operand of what was begun, once it is closed.
      refine ⟨fun depth before hbefore halt hpaired => ?_, fun depth before _ halt _ => ?_⟩
      · obtain ⟨inner, rest, rfl, hinner, houter⟩ := ihAwaits (depth + 1) [] (fun _ h => h) halt.2 hpaired
        have hnext := houter _ (hbefore _ (.group hinner))
        simpa only [List.append_assoc, List.cons_append, List.nil_append] using hnext
      · exact absurd halt.1.symm Bool.false_ne_true
    · refine ⟨fun depth before _ halt _ => ?_, fun depth before hbefore halt hpaired => ?_⟩
      · exact absurd halt.1 Bool.false_ne_true
      · cases depth with
        | zero => exact absurd hpaired id
        | succ depth =>
          exact ⟨before, es, rfl, hbefore, fun group hgroup => ihComplete depth group hgroup halt.2 hpaired⟩
    · refine ⟨fun depth before _ halt _ => ?_, fun depth before hbefore halt hpaired => ?_⟩
      · exact absurd (halt.1.symm.trans (Expr.startsOperand_connective hop)) (by decide)
      · have hbegun : ∀ fs, IsInfix fs → IsInfix ((before ++ [.operator op]) ++ fs) := by
          intro fs hfs
          rw [List.append_assoc]
          exact .binary hop hbefore hfs
        have hnext := ihAwaits depth _ hbegun (Expr.endsOperand_connective hop ▸ halt.2)
          ((paired_connective hop depth es).1 hpaired)
        rwa [List.append_assoc] at hnext

/-- **Well-formed sequences** are those that alternate and have paired parentheses. -/
theorem isInfix_iff_alternates : IsInfix es ↔ Alternates false es ∧ Paired 0 es := by
  constructor
  · intro h
    have halt := h.alternates_append [] rfl
    have hpaired := (h.paired_append 0 []).2 rfl
    rw [List.append_nil] at halt hpaired
    exact ⟨halt, hpaired⟩
  · intro h
    exact (completes_of_alternates es).1 0 [] (fun _ hfs => hfs) h.1 h.2

/-! ## Operands side by side -/

/-- no operand starts right behind the end of another -/
def Apart : Bool → List Expr → Prop
  | _, [] => True
  | afterOperand, e :: es => (afterOperand = true → e.startsOperand = false) ∧ Apart e.endsOperand es

theorem Alternates.apart {afterOperand : Bool} (h : Alternates afterOperand es) : Apart afterOperand es := by
  induction es generalizing afterOperand with
  | nil => trivial
  | cons e es ih => exact ⟨fun hafter => by rw [h.1, hafter]; rfl, ih h.2⟩

/-- Operands that stand apart have operators between them. -/
theorem Apart.countP_le {afterOperand : Bool} (h : Apart afterOperand es) :
    es.countP Expr.isOperand + afterOperand.toNat ≤ es.countP Expr.isConnective + 1 := by
  induction es generalizing afterOperand with
  | nil => simpa using afterOperand.toNat_le
  | cons e es ih =>
    have hrest := ih h.2
    have hafter := afterOperand.toNat_le
    rcases e.kinds with he | rfl | rfl | ⟨op, hop, rfl⟩
    · cases afterOperand with
      | true => exact absurd ((h.1 rfl).symm.trans (Expr.startsOperand_of_isOperand he)) Bool.false_ne_true
      | false =>
        rw [Expr.endsOperand_of_isOperand he] at hrest
        simpa [he, Expr.isConnective_of_isOperand he] using hrest
    · cases afterOperand with
      | true => exact absurd (h.1 rfl) (by decide)
      | false => exact hrest
    · simp [Expr.isOperand, Expr.isConnective, Operator.isParen, Expr.endsOperand] at hrest ⊢
      omega
    · simp [Expr.isOperand, Expr.isConnective, hop, Expr.endsOperand_connective hop] at hrest ⊢
      omega

/-- **Operands that stand apart alternate**, if there are as many of them as operators allow: an operator without an
operand in front of it, or an empty group, would leave one operand too many behind it. -/
theorem Apart.alternates {afterOperand : Bool} (h : Apart afterOperand es)
    (hcount : es.countP Expr.isOperand + afterOperand.toNat = es.countP Expr.isConnective + 1) :
    Alternates afterOperand es := by
  induction es generalizing afterOperand with
  | nil => cases afterOperand <;> simp_all [Alternates]
  | cons e es ih =>
    have hbound := h.2.countP_le
    have hrest := @ih e.endsOperand h.2
    rcases e.kinds with he | rfl | rfl | ⟨op, hop, rfl⟩
    · cases afterOperand with
      | true => exact absurd ((h.1 rfl).symm.trans (Expr.startsOperand_of_isOperand he)) Bool.false_ne_true
      | false =>
        refine ⟨Expr.startsOperand_of_isOperand he, hrest ?_⟩
        simp [he, Expr.isConnective_of_isOperand he, Expr.endsOperand_of_isOperand he] at hcount ⊢
        omega
    · cases afterOperand with
      | true => exact absurd (h.1 rfl) (by decide)
      | false => exact ⟨rfl, hrest hcount⟩
    · cases afterOperand with
      | true => exact ⟨rfl, hrest hcount⟩
      | false =>
        simp [Expr.isOperand, Expr.isConnective, Operator.isParen, Expr.endsOperand] at hcount hbound
        omega
    · cases afterOperand with
      | true =>
        refine ⟨Expr.startsOperand_connective hop, hrest ?_⟩
        simp [Expr.isOperand, Expr.isConnective, hop, Expr.endsOperand_connective hop] at hcount ⊢
        omega
      | false =>
        simp [Expr.isOperand, Expr.isConnective, hop, Expr.endsOperand_connective hop] at hcount hbound
        omega

end

end Calculator
