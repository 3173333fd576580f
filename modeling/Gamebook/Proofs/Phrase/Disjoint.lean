import Gamebook.Proofs.Phrase.Shape

/-!
Parts that do not overlap. An error stretches a phrase over what it did not take, and then the phrase can reach
into what follows it. Where there are no errors a phrase ends where its reader stands, so that every part begins
behind the part in front of it.
-/

namespace Gamebook.Phrase

/-- No part begins before the part in front of it ends, here and everywhere inside. -/
def Disjoint : Phrase → Prop :=
  Everywhere fun inner => inner.parts.Pairwise fun left right => left.stop ≤ right.start

variable {phrase grown part : Phrase} {r behind : Reader}

theorem disjoint_iff : phrase.Disjoint ↔
    phrase.parts.Pairwise (fun left right => left.stop ≤ right.start) ∧ ∀ part ∈ phrase.parts, part.Disjoint :=
  everywhere_iff

theorem Disjoint.shift (h : phrase.Disjoint) (distance : Nat) : (phrase.shift distance).Disjoint := by
  refine Everywhere.shift h ?_
  intro inner hpairs
  rw [shift_parts, List.pairwise_map]
  refine hpairs.imp fun hle => ?_
  rw [shift_stop, shift_start]
  exact Nat.add_le_add_right hle distance

/-! ### While a phrase grows -/

/-- The phrase ends before the reader, and so do its parts, which do not overlap. -/
structure Behind (phrase : Phrase) (r : Reader) : Prop where
  disjoint : phrase.Disjoint
  parts : ∀ part ∈ phrase.parts, part.stop ≤ r.offset
  stop : phrase.stop ≤ r.offset

theorem behind_begin (kind : Kind) (r : Reader) : (begin kind r).Behind r :=
  ⟨disjoint_iff.mpr ⟨.nil, nofun⟩, nofun, Nat.le_refl _⟩

theorem Behind.mono (h : phrase.Behind r) (hle : r.offset ≤ behind.offset) : phrase.Behind behind :=
  ⟨h.disjoint, fun part hpart => Nat.le_trans (h.parts part hpart) hle, Nat.le_trans h.stop hle⟩

theorem Behind.add (h : phrase.Behind r) (hpart : part.Behind behind) (hstart : part.start = r.offset)
    (hle : r.offset ≤ behind.offset) : (phrase.add part).Behind behind := by
  obtain ⟨hpairs, hinner⟩ := disjoint_iff.mp h.disjoint
  refine ⟨disjoint_iff.mpr ?_, ?_, Nat.max_le.mpr ⟨Nat.le_trans h.stop hle, hpart.stop⟩⟩
  · rw [add_parts]
    refine ⟨List.pairwise_append.mpr ⟨hpairs, List.pairwise_singleton _ _, ?_⟩,
      List.forall_mem_append.mpr ⟨hinner, List.forall_mem_singleton.mpr hpart.disjoint⟩⟩
    intro left hleft right hright
    rw [List.mem_singleton.mp hright, hstart]
    exact h.parts left hleft
  · rw [add_parts]
    exact List.forall_mem_append.mpr ⟨(h.mono hle).parts, List.forall_mem_singleton.mpr hpart.stop⟩

/-- What is done to a phrase apart from adding parts can only make it end later. -/
theorem Behind.of_parts_eq (h : phrase.Behind r) (hparts : grown.parts = phrase.parts) (hstop : grown.stop ≤ r.offset) :
    grown.Behind r := by
  obtain ⟨hdisjoint, hends, -⟩ := h
  rw [disjoint_iff, ← hparts] at hdisjoint
  rw [← hparts] at hends
  exact ⟨disjoint_iff.mpr hdisjoint, hends, hstop⟩

/-- While a phrase grows without errors, nothing in it reaches beyond its reader. -/
theorem Grows.stays_behind (h : phrase.Grows r grown behind) (hordered : r.Ordered) (hphrase : phrase.Behind r)
    (hclean : grown.Clean) : grown.Behind behind := by
  induction h with
  | refl => exact hphrase
  | skip _ hreach ih => exact (ih hordered hphrase hclean).mono hreach.offset_le
  | add h _ hpart ih ihpart =>
      obtain ⟨hgrown, hadded⟩ := clean_add.mp hclean
      have hbegun := ihpart (h.reaches.ordered hordered) (behind_begin _ _) hadded
      exact (ih hordered hphrase hgrown).add hbegun (hpart.start_eq rfl) hpart.reaches.offset_le
  | settle _ ih =>
      have hbehind := ih hordered hphrase (clean_settled.mp hclean)
      exact hbehind.of_parts_eq (settled_parts _) hbehind.stop
  | finish h ih =>
      have hbehind := ih hordered hphrase ((clean_finish _).mp hclean)
      exact hbehind.of_parts_eq rfl (Nat.max_le.mpr ⟨hbehind.stop, h.reaches.ordered hordered⟩)
  | flag h _ _ hrule hleaf ih =>
      obtain ⟨hgrown, hnoError⟩ := clean_flag.mp hclean
      have hbehind := ih hordered hphrase hgrown
      -- What is no error is a deprecated sign, which is marked where it stands.
      have hle := hleaf (hrule.resolve_left hnoError).2
      rw [Nat.max_eq_left (h.reaches.ordered hordered)] at hle
      exact hbehind.of_parts_eq rfl (Nat.max_le.mpr ⟨hbehind.stop, hle⟩)

theorem disjoint_of_reads {kinds : Kind → Bool} (h : r.Reads kinds phrase behind) (hordered : r.Ordered)
    (hclean : phrase.Clean) : phrase.Disjoint := by
  obtain ⟨kind, begun, _, hbegun, hread⟩ := h
  exact (hread.stays_behind (hbegun.ordered hordered) (behind_begin kind begun) hclean).disjoint

end Gamebook.Phrase
