import Gamebook.Prose
import Gamebook.Proofs.Grammar.Expression

/-!
The rules of prose keep to the line, and prose takes all of it: what interrupts the words is either
taken with its opening sign or left to be passed over, so that every step leaves less of the line.
-/

namespace Gamebook.Reader

open Phrase (Grows)

variable {r : Reader} {phrase : Phrase}

theorem reaches_bangs (budget : Nat) (r : Reader) : r.Reaches (bangs budget r).2 := by
  induction budget generalizing r with
  | zero => exact .refl
  | succ budget ih =>
      simp only [bangs]
      split
      · exact r.reaches_next.trans (ih r.next)
      · exact .refl

theorem closeBrace_extends (hphrase : phrase.kind.isLeaf = false) (r : Reader) :
    r.Extends phrase (closeBrace phrase r) := by
  have haccept := r.reaches_accept .curlyR
  simp only [closeBrace]
  split
  · rename_i closed hclosed
    rw [hclosed] at haccept
    exact .finish (.skip .refl (haccept.switch .text))
  · rename_i closed hclosed
    rw [hclosed] at haccept
    have hskip := (closed.reaches_skipTo (· == .curlyR)).trans (reaches_accept _ .curlyR)
    exact .finish (.skip ((Grows.skip .refl haccept).complain (by decide) hphrase) (hskip.switch .text))

theorem replacement_regular : Regular replacement := by
  intro r
  have hmarked := reaches_bangs r.rest.length r.next
  simp only [replacement]
  split
  · exact .none
  · rename_i fold _
    split
    · have hvalue : (Phrase.begin (.variableReplacement fold) r).Grows r.next _ _ :=
        inner_grows expression_regular (.skip .refl (hmarked.trans ((reaches_next _).switch .command))) rfl
      exact .found (yields_begin rfl (hvalue.trans (closeBrace_extends (hvalue.kind_eq ▸ rfl) _)))
    · exact .none

def Extending (rule : Phrase → Reader → Phrase × Reader) : Prop :=
  ∀ (phrase : Phrase) (r : Reader), r.Extends phrase (rule phrase r)

/-- A branch is read as given; the bar behind it, if there is one, leads to the next branch. -/
theorem branches_extends {content : Phrase → Reader → Phrase × Reader} (hcontent : Extending content)
    (budget : Nat) (phrase : Phrase) (r : Reader) :
    r.Extends phrase (branches content budget phrase r).2 := by
  induction budget generalizing phrase r with
  | zero => exact .refl
  | succ budget ih =>
      have hbranch := hcontent (.begin .multiReplaceOption r) r
      have hadded : phrase.Grows r _ _ := .add .refl rfl (.finish hbranch)
      have haccept := (content (.begin .multiReplaceOption r) r).2.reaches_accept .pipe
      simp only [branches]
      split
      · rename_i next hnext
        rw [hnext] at haccept
        exact (Grows.skip hadded haccept).trans (ih _ next)
      · rename_i next hnext
        rw [hnext] at haccept
        exact .skip hadded haccept

/-- Behind its branches a multireplace may be marked as a whole before it is closed. -/
theorem closeBrace_yields {behind : Reader} {few : Prop} [Decidable few] {rule : Rule}
    (hread : r.Reads Kind.isPart phrase behind) (htaken : r.next.Reaches behind) (hrule : rule.IsError)
    (hphrase : phrase.kind.isLeaf = false) :
    r.Yields (closeBrace (if few then phrase.flagWhole rule else phrase) behind) := by
  have hleaf : (if few then phrase.flagWhole rule else phrase).kind.isLeaf = false := by
    split <;> exact hphrase
  have hclose := closeBrace_extends hleaf behind
  refine ⟨Reads.grow ?_ hclose, htaken.trans hclose.reaches⟩
  split
  · exact hread.flagWhole (.inl hrule) (by rw [hphrase]; exact nofun)
  · exact hread

theorem multireplace_regular {content : Phrase → Reader → Phrase × Reader}
    (hcontent : Extending content) (budget : Nat) : Regular (multireplace budget content) := by
  intro r
  simp only [multireplace]
  split
  · have hopened := r.next.reaches_next.switch .command
    have hselector : (Phrase.begin .multiReplace r).Grows r.next _ _ :=
      (Grows.skip .refl hopened).addOr (term_regular _) (rfl : Rule.expressionExpected.IsError) rfl
    have hgrown := (Grows.skip hselector (.switch .refl .text)).trans (branches_extends hcontent budget _ _)
    have hread := (yields_begin rfl hgrown).reads
    exact .found (closeBrace_yields hread hgrown.reaches (by decide) (hgrown.kind_eq ▸ rfl))
  · exact .none

/-- What interrupts prose at a lexeme of the given kind, or the word that it is. -/
def prosePart (budget : Nat) (kind : TokenKind) (r : Reader) : Option Phrase × Reader :=
  match kind with
  | .word => (some (r.leaf .realWord).1, (r.leaf .realWord).2)
  | .dollar => replacement r
  | .atSign => multireplace budget (proseWithin budget endsBranch) r
  | _ => (none, r)

theorem proseWithin_succ (budget : Nat) (ends : TokenKind → Bool) (phrase : Phrase) (r : Reader) :
    proseWithin (budget + 1) ends phrase r =
      match r.kind? with
      | none => (phrase, r)
      | some kind =>
        if ends kind then (phrase, r)
        else
          match prosePart budget kind r with
          | (some part, behind) => proseWithin budget ends (phrase.add part) behind
          | (none, behind) => proseWithin budget ends phrase behind.next := rfl

theorem prosePart_mayYield {budget : Nat} (hprose : Extending (proseWithin budget endsBranch))
    (r : Reader) (kind : TokenKind) : r.MayYield (prosePart budget kind r) := by
  unfold prosePart
  split
  · exact .found (r.leaf_yields .realWord rfl)
  · exact replacement_regular r
  · exact multireplace_regular hprose budget r
  · exact .none

/-- Prose goes on with a phrase, by the number of words and constructs that are still to be read. -/
theorem proseWithin_extending (budget : Nat) (ends : TokenKind → Bool) :
    Extending (proseWithin budget ends) := by
  induction budget generalizing ends with
  | zero => exact fun _ _ => .refl
  | succ budget ih =>
      intro phrase r
      rw [proseWithin_succ]
      split
      · exact .refl
      · rename_i kind _
        split
        · exact .refl
        · have hpart := prosePart_mayYield (ih endsBranch) r kind
          generalize prosePart budget kind r = part at hpart
          cases hpart with
          | none => exact (Grows.skip .refl r.reaches_next).trans (ih ends _ _)
          | found hpart => exact (Grows.read .refl hpart.reads).trans (ih ends _ _)

theorem prose_extending : Extending prose :=
  fun phrase r => .finish (proseWithin_extending r.budget (fun _ => false) phrase r)

/-- Every step of prose that no sign ends leaves less of the line, until nothing is left. -/
theorem proseWithin_rest {budget : Nat} (hbudget : r.rest.length ≤ budget) (phrase : Phrase) :
    (proseWithin budget (fun _ => false) phrase r).2.rest = [] := by
  induction budget generalizing phrase r with
  | zero => exact List.eq_nil_of_length_eq_zero (Nat.le_zero.mp hbudget)
  | succ budget ih =>
      rw [proseWithin_succ]
      split
      · rename_i hkind
        exact kind?_eq_none_iff.mp hkind
      · rename_i kind hkind
        have hlt := next_length_lt (rest_ne_nil_of_kind? hkind)
        have hpart := prosePart_mayYield (proseWithin_extending budget endsBranch) r kind
        rw [if_neg Bool.false_ne_true]
        generalize prosePart budget kind r = part at hpart
        cases hpart with
        | none => exact ih (by omega) phrase
        | found hpart =>
            exact ih (Nat.le_of_lt_succ (Nat.lt_of_le_of_lt hpart.taken.length_le (by omega))) _

theorem prose_rest (phrase : Phrase) (r : Reader) : (prose phrase r).2.rest = [] :=
  proseWithin_rest (Nat.le_succ _) phrase

end Gamebook.Reader
