/-
Tokens that differ in nothing that is read.

Reading sees the lexemes of tokens, and neither where they stand nor the radix of a number. So it reads the same from
tokens that were printed as from those they were printed from (`Alike`), but for the sign of zeros, which is not printed
(`Lexeme.readBack`, `Expr.readBack`).

- `splitArguments_alike`, `callBody_alike`: calls have arguments that are alike;
- `readElements_alike`: tokens that are alike are read alike.
-/
import Calculator.Proofs.Expr.Lexemes
import Calculator.Proofs.Numeral.ReadBack
import Mathlib.Data.List.Forall2

namespace Calculator

/-- what a lexeme of an expression is read back as -/
def Lexeme.readBack : Lexeme → Lexeme
  | number value _ => number value.positiveZero .decimal
  | l => l

/-- the tokens of a text that was printed, for the tokens it was printed from -/
def Alike (ts ts' : List Token) : Prop := List.Forall₂ (fun t t' => t'.lexeme = t.lexeme.readBack) ts ts'

theorem alike_of_map_eq {ts ts' : List Token} (h : ts'.map (·.lexeme) = ts.map (·.lexeme.readBack)) : Alike ts ts' := by
  induction ts generalizing ts' with
  | nil =>
    obtain rfl := List.map_eq_nil_iff.1 h
    exact .nil
  | cons t ts ih =>
    obtain ⟨t', ts', rfl, ht, hts⟩ := List.map_eq_cons_iff.1 h
    exact .cons ht (ih hts)

namespace Lexeme

/-- Only numbers are read back as numbers, and everything else as itself. -/
theorem readBack_eq_iff {l m : Lexeme} (hm : ∀ value radix, m ≠ .number value radix) : l.readBack = m ↔ l = m := by
  cases l with
  | number value radix => exact iff_of_false (Ne.symm (hm _ _)) (Ne.symm (hm _ _))
  | _ => rfl

theorem eq_of_eq_readBack {l l' m : Lexeme} (h' : l' = l.readBack) (h : l = m)
    (hm : ∀ value radix, m ≠ .number value radix) : l' = m := h'.trans ((readBack_eq_iff hm).2 h)

theorem depthStep_readBack (depth : Nat) (l : Lexeme) : depthStep depth l.readBack = depthStep depth l := by
  cases l <;> rfl

theorem inside_readBack {depth : Nat} {l : Lexeme} (h : Inside depth l) : Inside depth l.readBack := by
  cases l with
  | number value radix => simp [Inside, readBack]
  | _ => exact h

end Lexeme

section

variable {ts ts' after : List Token} {pieces : List (List Token)}

theorem splitArguments_alike {depth : Nat} (h : Alike ts ts') (hsplit : splitArguments depth ts = ⟨pieces, .closed after⟩) :
    ∃ pieces' after', splitArguments depth ts' = ⟨pieces', .closed after'⟩ ∧ List.Forall₂ Alike pieces pieces' ∧
      Alike after after' := by
  induction depth, ts using splitting_induct generalizing ts' pieces with
  | nil depth => rw [splitArguments] at hsplit; cases hsplit
  | stop depth t rest ht => rw [splitArguments_end depth ht] at hsplit; cases hsplit
  | closing t rest ht =>
    rw [splitArguments_closing ht] at hsplit
    cases hsplit
    cases h with
    | cons ht' hrest =>
      exact ⟨[[]], _, splitArguments_closing (Lexeme.eq_of_eq_readBack ht' ht (by simp)), .cons .nil .nil, hrest⟩
  | comma t rest ht ih =>
    rw [splitArguments_comma ht] at hsplit
    obtain ⟨first, others, hrestSplit, rfl⟩ := CallBody.eq_of_next_eq_closed (splitArguments_ne 0 rest after) hsplit
    cases h with
    | cons ht' hrest =>
      obtain ⟨pieces', after', hsplit', hpieces, hafter⟩ := ih hrest hrestSplit
      refine ⟨[] :: pieces', after', ?_, .cons .nil hpieces, hafter⟩
      rw [splitArguments_comma (Lexeme.eq_of_eq_readBack ht' ht (by simp)), hsplit']
      rfl
  | inside depth t rest ht ih =>
    rw [splitArguments_inside ht] at hsplit
    obtain ⟨first, others, hrestSplit, rfl⟩ := CallBody.eq_of_push_eq_closed (splitArguments_ne _ rest after) hsplit
    cases h with
    | @cons _ t' _ rest' ht' hrest =>
      obtain ⟨pieces', after', hsplit', hpieces, hafter⟩ := ih hrest hrestSplit
      cases hpieces with
      | @cons _ first' _ others' hfirst hothers =>
        refine ⟨(t' :: first') :: others', after', ?_, .cons (.cons ht' hfirst) hothers, hafter⟩
        have ht₂ : Inside depth t'.lexeme := ht' ▸ Lexeme.inside_readBack ht
        rw [splitArguments_inside ht₂, ht', Lexeme.depthStep_readBack, hsplit']
        rfl

theorem alike_nil_iff {ps ps' : List (List Token)} (h : List.Forall₂ Alike ps ps') : ps = [[]] ↔ ps' = [[]] := by
  constructor
  · intro heq
    subst heq
    cases h with
    | cons h hnil => cases h; cases hnil; rfl
  · intro heq
    subst heq
    cases h with
    | cons h hnil => cases h; cases hnil; rfl

theorem callBody_alike (h : Alike ts ts') (hbody : callBody ts = ⟨pieces, .closed after⟩) :
    ∃ pieces' after', callBody ts' = ⟨pieces', .closed after'⟩ ∧ List.Forall₂ Alike pieces pieces' ∧
      Alike after after' := by
  obtain ⟨arguments, hsplit, rfl⟩ := callBody_eq_closed_iff.1 hbody
  obtain ⟨arguments', after', hsplit', harguments, hafter⟩ := splitArguments_alike h hsplit
  refine ⟨_, after', callBody_eq_closed_iff.2 ⟨arguments', hsplit', rfl⟩, ?_, hafter⟩
  simp only [alike_nil_iff harguments]
  split
  · exact .nil
  · exact harguments

end

/-! ## Expressions that are read back -/

namespace Expr

mutual

/-- an expression without negative zeros -/
def readBack : Expr → Expr
  | number value => number value.positiveZero
  | call name arguments => call name (readBackEach arguments)
  | sequence elements => sequence (readBackEach elements)
  | e => e

def readBackEach : List Expr → List Expr
  | [] => []
  | e :: es => e.readBack :: readBackEach es

end

end Expr

theorem Lexeme.element?_readBack {l : Lexeme} {e : Expr} (h : l.element? = some e) :
    l.readBack.element? = some e.readBack := by
  cases l <;> cases h <;> rfl

theorem not_startsCall_alike {t t' : Token} {ts ts' : List Token} (ht : t'.lexeme = t.lexeme.readBack)
    (hts : Alike ts ts') (h : ¬ StartsCall t ts) : ¬ StartsCall t' ts' := by
  intro hcall
  obtain ⟨name, p', inner', ht', rfl, hp'⟩ := hcall
  cases hts with
  | cons hp _ =>
    rw [ht] at ht'
    rw [hp] at hp'
    exact h ⟨name, _, _, (Lexeme.readBack_eq_iff (by simp)).1 ht', rfl, (Lexeme.readBack_eq_iff (by simp)).1 hp'⟩

/-- Tokens that are alike are read alike. -/
theorem readElements_alike (line line' : Text) :
    (∀ ts ts' es, Alike ts ts' → readElements line ts = .ok es → readElements line' ts' = .ok (Expr.readBackEach es)) ∧
      ∀ pieces pieces' arguments, List.Forall₂ Alike pieces pieces' → readArguments line pieces = .ok arguments →
        readArguments line' pieces' = .ok (Expr.readBackEach arguments) := by
  refine reading_induct ?nil ?stop ?newline ?element ?fault ?closed ?unclosed ?none ?argument
  case nil =>
    intro ts' es h hes
    cases h
    rw [readElements_nil] at hes
    cases hes
    rw [readElements_nil]
    rfl
  case stop =>
    intro t rest ht ts' es h hes
    rw [readElements_end ht] at hes
    cases hes
    cases h with
    | cons ht' _ => exact readElements_end (Lexeme.eq_of_eq_readBack ht' ht (by simp))
  case newline =>
    intro t rest ht ih ts' es h hes
    rw [readElements_newline ht] at hes
    cases h with
    | cons ht' hrest =>
      rw [readElements_newline (Lexeme.eq_of_eq_readBack ht' ht (by simp))]
      exact ih _ es hrest hes
  case element =>
    intro t rest e ht hcall ih ts' es h hes
    rw [readElements_element ht hcall] at hes
    obtain ⟨others, hothers, rfl⟩ := map_eq_ok_iff.1 hes
    cases h with
    | cons ht' hrest =>
      rw [readElements_element (ht' ▸ Lexeme.element?_readBack ht) (not_startsCall_alike ht' hrest hcall),
        ih _ others hrest hothers]
      rfl
  case fault =>
    intro t rest f ht ts' es _ hes
    rw [readElements_fault ht] at hes
    cases hes
  case closed =>
    intro t p inner name pieces after ht hp hbody ihPieces ihAfter ts' es h hes
    obtain ⟨arguments, others, hpieces, hafter, rfl⟩ := (readElements_closed_eq_ok_iff ht hp hbody).1 hes
    cases h with
    | cons ht' h =>
      cases h with
      | cons hp' hinner =>
        obtain ⟨pieces', after', hbody', halike, halikeAfter⟩ := callBody_alike hinner hbody
        refine (readElements_closed_eq_ok_iff (Lexeme.eq_of_eq_readBack ht' ht (by simp))
          (Lexeme.eq_of_eq_readBack hp' hp (by simp)) hbody').2 ?_
        exact ⟨_, _, ihPieces _ _ halike hpieces, ihAfter _ _ halikeAfter hafter, rfl⟩
  case unclosed =>
    intro t p inner name pieces span ht hp hbody _ ts' es _ hes
    exact absurd hes (readElements_unclosed_ne_ok ht hp hbody es)
  case none =>
    intro pieces' arguments h harguments
    cases h
    rw [readArguments_nil] at harguments
    cases harguments
    rw [readArguments_nil]
    rfl
  case argument =>
    intro piece others ihPiece ihOthers pieces' arguments h harguments
    obtain ⟨first, rest, hpiece, hothers, rfl⟩ := readArguments_cons_eq_ok_iff.1 harguments
    cases h with
    | cons hp hrest =>
      exact readArguments_cons_eq_ok_iff.2 ⟨_, _, ihPiece _ _ hp hpiece, ihOthers _ _ hrest hothers, rfl⟩

end Calculator
