/-!
Search by halving in a sequence that starts with elements of one sort and goes on with elements
of another.
-/

namespace Gamebook

/-- The first index from `low` on, below `high`, at which the test fails, or `high`; the test is
expected to hold up to some index and to fail from there on. -/
def bisect (test : Nat → Bool) (low high : Nat) : Nat :=
  if low < high then
    let middle := (low + high) / 2
    if test middle then bisect test (middle + 1) high else bisect test low middle
  else low
termination_by high - low

/-- How many elements stand before the first one that fails the test. -/
def partitionPoint (test : α → Bool) (elements : Array α) : Nat :=
  bisect (fun i => elements[i]?.any test) 0 elements.size

/-- Where the test holds up to some border and fails from there on, the border is found. -/
theorem bisect_eq {test : Nat → Bool} {low high border : Nat} (hlow : low ≤ border) (hhigh : border ≤ high)
    (hpass : ∀ index, low ≤ index → index < border → test index = true)
    (hfail : ∀ index, border ≤ index → index < high → test index = false) : bisect test low high = border := by
  induction hlength : high - low using Nat.strongRecOn generalizing low high with
  | ind size ih =>
      rw [bisect]
      split
      · rename_i hlt
        dsimp only
        rcases Nat.lt_or_ge ((low + high) / 2) border with hmiddle | hmiddle
        · rw [if_pos (hpass _ (by omega) hmiddle)]
          exact ih _ (by omega) hmiddle hhigh (fun index hindex => hpass index (by omega)) hfail rfl
        · rw [if_neg (by simp [hfail _ hmiddle (by omega)])]
          exact ih _ (by omega) hlow hmiddle hpass (fun index hindex hlt => hfail index hindex (by omega)) rfl
      · omega

theorem partitionPoint_eq {test : α → Bool} {elements : Array α} {front back : List α}
    (hsplit : elements.toList = front ++ back) (hfront : ∀ element ∈ front, test element = true)
    (hback : ∀ element ∈ back, test element = false) : partitionPoint test elements = front.length := by
  have hsize : elements.size = front.length + back.length := by
    rw [← Array.length_toList, hsplit, List.length_append]
  refine bisect_eq (Nat.zero_le _) (by omega) (fun index _ hindex => ?_) (fun index hindex hlt => ?_)
  · rw [← Array.getElem?_toList, hsplit, List.getElem?_append_left hindex, List.getElem?_eq_getElem hindex]
    exact hfront _ (List.getElem_mem hindex)
  · have hlt' : index - front.length < back.length := by omega
    rw [← Array.getElem?_toList, hsplit, List.getElem?_append_right hindex, List.getElem?_eq_getElem hlt']
    exact hback _ (List.getElem_mem hlt')

/-- Where the test holds of whatever stands before an element that passes it, it fails from the first failure on. -/
theorem not_of_mem_dropWhile {before : α → α → Prop} {test : α → Bool} {elements : List α}
    (hsorted : elements.Pairwise before)
    (htest : ∀ left right, before left right → test right = true → test left = true) :
    ∀ element ∈ elements.dropWhile test, test element = false := by
  induction elements with
  | nil => simp
  | cons element more ih =>
      obtain ⟨hfirst, hmore⟩ := List.pairwise_cons.mp hsorted
      by_cases hpass : test element = true
      · rw [List.dropWhile_cons_of_pos hpass]
        exact ih hmore
      · rw [List.dropWhile_cons_of_neg hpass]
        refine List.forall_mem_cons.mpr ⟨Bool.eq_false_iff.mpr hpass, fun other hother => ?_⟩
        rw [Bool.eq_false_iff]
        intro hlater
        exact hpass (htest _ _ (hfirst other hother) hlater)

theorem partitionPoint_eq_takeWhile {before : α → α → Prop} {test : α → Bool} {elements : Array α}
    (hsorted : elements.toList.Pairwise before)
    (htest : ∀ left right, before left right → test right = true → test left = true) :
    partitionPoint test elements = (elements.toList.takeWhile test).length := by
  apply partitionPoint_eq List.takeWhile_append_dropWhile.symm
  · exact List.all_eq_true.mp List.all_takeWhile
  · exact not_of_mem_dropWhile hsorted htest

end Gamebook
