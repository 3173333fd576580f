import Gamebook.Proofs.Line.Tiling
import Mathlib.Data.List.Forall2

/-!
Texts put together at the start of a line. What is in front ends with a line break, or is empty, so that
the lines of the whole are those of the front and then those of what follows, further down.
-/

namespace Gamebook.Line

/-- The text is empty or ends with a line feed, so that a line can start behind it. -/
def EndsLine (text : Text) : Prop := text = [] ∨ ∃ body, text = body ++ ['\n']

/-! ### Cutting -/

theorem cutStep_append (c : Char) {cuts : List (Text × LineEnding)} (hne : cuts ≠ [])
    (more : List (Text × LineEnding)) : cutStep c (cuts ++ more) = cutStep c cuts ++ more := by
  obtain ⟨⟨body, ending⟩, rest, rfl⟩ := List.exists_cons_of_ne_nil hne
  unfold cutStep
  split
  · rfl
  · cases body with
    | nil =>
        cases ending with
        | lf =>
            simp only [List.cons_append]
            split <;> rfl
        | none => rfl
        | crlf => rfl
    | cons first body => rfl

theorem length_cutStep (c : Char) {cuts : List (Text × LineEnding)} (hne : cuts ≠ []) :
    (cutStep c cuts).length = cuts.length + if c = '\n' then 1 else 0 := by
  obtain ⟨⟨body, ending⟩, rest, rfl⟩ := List.exists_cons_of_ne_nil hne
  unfold cutStep
  split
  · rfl
  · cases body with
    | nil =>
        cases ending with
        | lf =>
            dsimp only
            split <;> rfl
        | none => rfl
        | crlf => rfl
    | cons first body => rfl

/-- Characters in front of a text that is already cut go into its first line or before it. -/
theorem foldr_cutStep (text : Text) {cuts : List (Text × LineEnding)} (hne : cuts ≠ [])
    (more : List (Text × LineEnding)) :
    text.foldr cutStep cuts ≠ [] ∧ text.foldr cutStep (cuts ++ more) = text.foldr cutStep cuts ++ more ∧
      (text.foldr cutStep cuts).length = cuts.length + text.count '\n' := by
  induction text with
  | nil => exact ⟨hne, rfl, rfl⟩
  | cons c text ih =>
      obtain ⟨hcuts, happend, hlength⟩ := ih
      have hcount := length_cutStep c hcuts
      rw [List.foldr_cons, List.foldr_cons, happend, cutStep_append c hcuts, hcount, hlength,
        List.count_cons, Nat.add_assoc]
      refine ⟨?_, rfl, by simp⟩
      intro hnil
      rw [hnil] at hcount
      have hpos := List.length_pos_iff.mpr hcuts
      simp only [List.length_nil] at hcount
      omega

theorem cut_append {front : Text} (hfront : EndsLine front) (back : Text) :
    cut (front ++ back) = cut front ++ cut back := by
  rcases hfront with rfl | ⟨body, rfl⟩
  · rfl
  · have hcut := (foldr_cutStep body (List.cons_ne_nil ([], LineEnding.lf) []) (cut back)).2.1
    have hfront : cut (body ++ ['\n']) = body.foldr cutStep [([], .lf)] := List.foldr_append
    rw [hfront, ← hcut, List.append_assoc]
    exact List.foldr_append

theorem length_cut {front : Text} (hfront : EndsLine front) : (cut front).length = front.count '\n' := by
  rcases hfront with rfl | ⟨body, rfl⟩
  · rfl
  · have hlength := (foldr_cutStep body (List.cons_ne_nil ([], LineEnding.lf) []) []).2.2
    rw [cut, List.foldr_append, List.count_append, Nat.add_comm]
    exact hlength

theorem foldr_cutStep_body {body : Text} (hfeed : '\n' ∉ body) (hreturn : '\r' ∉ body) (last : Text)
    (ending : LineEnding) (more : List (Text × LineEnding)) :
    body.foldr cutStep ((last, ending) :: more) = (body ++ last, ending) :: more := by
  induction body with
  | nil => rfl
  | cons c body ih =>
      rw [List.mem_cons, not_or] at hfeed hreturn
      rw [List.foldr_cons, ih hfeed.2 hreturn.2]
      unfold cutStep
      rw [if_neg (Ne.symm hfeed.1)]
      split
      · rename_i heq
        cases heq
      · rename_i heq
        rw [List.cons.injEq, Prod.mk.injEq] at heq
        rw [if_neg (Ne.symm hreturn.1), List.cons_append, heq.1.1, heq.1.2, heq.2]
      · rename_i heq
        rw [List.cons.injEq, Prod.mk.injEq] at heq
        rw [List.cons_append, heq.1.1, heq.1.2, heq.2]

/-- A text without line breaks is one line. -/
theorem cut_body {body : Text} (hne : body ≠ []) (hfeed : '\n' ∉ body) (hreturn : '\r' ∉ body) :
    cut body = [(body, .none)] := by
  have hsplit := List.dropLast_append_getLast hne
  rw [← hsplit, List.mem_append, List.mem_singleton, not_or] at hfeed hreturn
  have hlast : cutStep (body.getLast hne) [] = [([body.getLast hne], .none)] := if_neg (Ne.symm hfeed.2)
  calc cut body = cut (body.dropLast ++ [body.getLast hne]) := by rw [hsplit]
    _ = body.dropLast.foldr cutStep [([body.getLast hne], .none)] := by
      rw [cut, List.foldr_append, List.foldr_cons, List.foldr_nil, hlast]
    _ = [(body, .none)] := by rw [foldr_cutStep_body hfeed.1 hreturn.1, hsplit]

/-- The text is empty or begins with a line break, so that a line can end before it. -/
def BeginsBreak (text : Text) : Prop :=
  text = [] ∨ ∃ more, text = '\n' :: more ∨ text = '\r' :: '\n' :: more

/-- What is cut off in front of a line break is the line, whatever it is. -/
theorem exists_cut_line {back : Text} (hback : BeginsBreak back) :
    ∃ ending more, (ending.text = [] → more = []) ∧ ∀ body : Text, body ≠ [] → '\n' ∉ body → '\r' ∉ body →
      cut (body ++ back) = (body, ending) :: more := by
  rcases hback with rfl | ⟨more, rfl | rfl⟩
  · refine ⟨.none, [], fun _ => rfl, fun body hne hfeed hreturn => ?_⟩
    rw [List.append_nil, cut_body hne hfeed hreturn]
  · refine ⟨.lf, cut more, nofun, fun body _ hfeed hreturn => ?_⟩
    have hline := foldr_cutStep_body hfeed hreturn [] .lf (cut more)
    rw [List.append_nil] at hline
    exact List.foldr_append.trans hline
  · refine ⟨.crlf, cut more, nofun, fun body _ hfeed hreturn => ?_⟩
    have hline := foldr_cutStep_body hfeed hreturn [] .crlf (cut more)
    rw [List.append_nil] at hline
    exact List.foldr_append.trans hline

/-! ### Laying out -/

/-- The bytes of the lines that a text was cut into. -/
abbrev bytesOf (cuts : List (Text × LineEnding)) : Nat :=
  Text.bytes (cuts.flatMap fun part => part.1 ++ part.2.text)

theorem bytesOf_cons (body : Text) (ending : LineEnding) (more : List (Text × LineEnding)) :
    bytesOf ((body, ending) :: more) = Text.bytes body + Text.bytes ending.text + bytesOf more := by
  rw [bytesOf, List.flatMap_cons, Text.bytes_append, Text.bytes_append]

theorem layOut_append (number start : Nat) (front back : List (Text × LineEnding)) :
    layOut number start (front ++ back) =
      layOut number start front ++ layOut (number + front.length) (start + bytesOf front) back := by
  induction front generalizing number start with
  | nil => rfl
  | cons part more ih =>
      obtain ⟨body, ending⟩ := part
      have hnumber : number + 1 + more.length = number + (more.length + 1) := by omega
      rw [List.cons_append, layOut, ih, layOut, bytesOf_cons, List.length_cons, List.cons_append, hnumber,
        ← Nat.add_assoc start, ← Nat.add_assoc start]

/-- The lines of two texts put together at a line break. -/
theorem lines_append {front : Text} (hfront : EndsLine front) (back : Text) :
    lines (front ++ back) =
      lines front ++ layOut (front.count '\n') (Text.bytes front) (cut back) := by
  rw [lines, cut_append hfront, layOut_append, length_cut hfront, bytesOf, flatMap_cut, Nat.zero_add,
    Nat.zero_add, lines]

end Gamebook.Line
