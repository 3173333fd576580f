import Gamebook.Proofs.Reader.Outcome

/-!
The order of tokens. The ranges of neighbouring phrases can overlap, because an issue stretches a phrase
over what it did not take. Their tokens never do: whatever a rule adds to a phrase begins where its reader
stands, and all tokens of the phrase end before that.
-/

namespace Gamebook.Phrase

theorem everywhere_iff {property : Phrase → Prop} {phrase : Phrase} :
    phrase.Everywhere property ↔ property phrase ∧ ∀ part ∈ phrase.parts, part.Everywhere property :=
  ⟨fun h => ⟨h.here, fun _ => h.part⟩, fun h => .intro h.1 h.2⟩

theorem Everywhere.and {property other : Phrase → Prop} {phrase : Phrase} (h : phrase.Everywhere property)
    (hother : phrase.Everywhere other) : phrase.Everywhere fun inner => property inner ∧ other inner := by
  induction h with
  | intro here _ ih => exact .intro ⟨here, hother.here⟩ fun part hpart => ih part hpart (hother.part hpart)

theorem Everywhere.mono {property weaker : Phrase → Prop} {phrase : Phrase}
    (h : phrase.Everywhere property) (himp : ∀ inner, property inner → weaker inner) :
    phrase.Everywhere weaker := by
  induction h with
  | intro here _ ih => exact .intro (himp _ here) ih

def IsToken (phrase : Phrase) : Prop := phrase.parts = [] ∧ phrase.kind.isLeaf = true

/-- No token in the phrase ends behind the limit. -/
def TokensBy (limit : Nat) : Phrase → Prop := Everywhere fun inner => inner.IsToken → inner.stop ≤ limit

/-- No part begins before the tokens of the parts in front of it end, here and everywhere inside. -/
def InOrder : Phrase → Prop :=
  Everywhere fun inner => inner.parts.Pairwise fun left right => left.TokensBy right.start

variable {phrase grown part : Phrase} {limit further : Nat}

theorem TokensBy.mono (h : phrase.TokensBy limit) (hle : limit ≤ further) : phrase.TokensBy further :=
  Everywhere.mono h fun _ hstop htoken => Nat.le_trans (hstop htoken) hle

theorem tokensBy_iff : phrase.TokensBy limit ↔
    (phrase.IsToken → phrase.stop ≤ limit) ∧ ∀ part ∈ phrase.parts, part.TokensBy limit :=
  everywhere_iff

theorem inOrder_iff : phrase.InOrder ↔
    phrase.parts.Pairwise (fun left right => left.TokensBy right.start) ∧
      ∀ part ∈ phrase.parts, part.InOrder :=
  everywhere_iff

/-! ### While a phrase grows -/

/-- The tokens of a phrase are in order and end before the reader. -/
structure Follows (phrase : Phrase) (r : Reader) : Prop where
  inOrder : phrase.InOrder
  tokensBy : phrase.TokensBy r.offset

theorem follows_begin (kind : Kind) (r : Reader) : (Phrase.begin kind r).Follows r :=
  ⟨inOrder_iff.mpr ⟨.nil, nofun⟩, tokensBy_iff.mpr ⟨fun _ => Nat.le_refl _, nofun⟩⟩

theorem Follows.add {r behind : Reader} (h : phrase.Follows r) (hpart : part.Follows behind)
    (hstart : part.start = r.offset) (hle : r.offset ≤ behind.offset) : (phrase.add part).Follows behind := by
  obtain ⟨hpairs, hinner⟩ := inOrder_iff.mp h.inOrder
  have htokens := (tokensBy_iff.mp h.tokensBy).2
  constructor
  · rw [inOrder_iff, add_parts]
    refine ⟨List.pairwise_append.mpr ⟨hpairs, List.pairwise_singleton _ _, ?_⟩,
      List.forall_mem_append.mpr ⟨hinner, List.forall_mem_singleton.mpr hpart.inOrder⟩⟩
    intro left hleft right hright
    rw [List.mem_singleton.mp hright, hstart]
    exact htokens left hleft
  · rw [tokensBy_iff, add_parts]
    refine ⟨fun htoken => ?_, List.forall_mem_append.mpr
      ⟨fun left hleft => (htokens left hleft).mono hle, List.forall_mem_singleton.mpr hpart.tokensBy⟩⟩
    exact absurd htoken.1 (by simp)

/-- What is done to a phrase apart from adding parts keeps its tokens in place, as long as the phrase
itself does not become a token that ends too late. -/
theorem Follows.of_parts_eq {r : Reader} (h : phrase.Follows r) (hparts : grown.parts = phrase.parts)
    (hstop : grown.IsToken → grown.stop ≤ r.offset) : grown.Follows r := by
  have hinner := inOrder_iff.mp h.inOrder
  have htokens := (tokensBy_iff.mp h.tokensBy).2
  rw [← hparts] at hinner htokens
  exact ⟨inOrder_iff.mpr hinner, tokensBy_iff.mpr ⟨hstop, htokens⟩⟩

theorem Follows.stop_le {r : Reader} (h : phrase.Follows r) (htoken : phrase.IsToken) :
    phrase.stop ≤ r.offset := (tokensBy_iff.mp h.tokensBy).1 htoken

/-- While a phrase grows its tokens stay in order. -/
theorem Grows.follows {r behind : Reader} (h : phrase.Grows r grown behind) (hordered : r.Ordered)
    (hphrase : phrase.Follows r) : grown.Follows behind := by
  induction h with
  | refl => exact hphrase
  | skip _ hreach ih =>
      have hbehind := ih hordered hphrase
      exact ⟨hbehind.inOrder, hbehind.tokensBy.mono hreach.offset_le⟩
  | add h _ hpart ih ihpart =>
      have hbegun := ihpart (h.reaches.ordered hordered) (follows_begin _ _)
      exact (ih hordered hphrase).add hbegun (hpart.start_eq rfl) hpart.reaches.offset_le
  | settle _ ih =>
      have hbehind := ih hordered hphrase
      refine hbehind.of_parts_eq (settled_parts _) ?_
      rintro ⟨hparts, hkind⟩
      rw [settled_parts] at hparts
      exact hbehind.stop_le ⟨hparts, hkind⟩
  | finish h ih =>
      have hbehind := ih hordered hphrase
      refine hbehind.of_parts_eq rfl fun htoken => ?_
      exact Nat.max_le.mpr ⟨hbehind.stop_le htoken, h.reaches.ordered hordered⟩
  | flag h _ _ _ hleaf ih =>
      have hbehind := ih hordered hphrase
      have hlast := h.reaches.ordered hordered
      refine hbehind.of_parts_eq rfl fun htoken => ?_
      have hle := hleaf htoken.2
      rw [Nat.max_eq_left hlast] at hle
      exact Nat.max_le.mpr ⟨hbehind.stop_le htoken, hle⟩

theorem follows_of_reads {kinds : Kind → Bool} {r behind : Reader} (h : r.Reads kinds phrase behind)
    (hordered : r.Ordered) : phrase.Follows behind ∧ r.offset ≤ phrase.start := by
  obtain ⟨kind, begun, _, hbegun, hread⟩ := h
  refine ⟨hread.follows (hbegun.ordered hordered) (follows_begin kind begun), ?_⟩
  rw [hread.start_eq rfl]
  exact hbegun.offset_le

/-! ### Moving a phrase -/

@[simp] theorem shift_parts (distance : Nat) (phrase : Phrase) :
    (phrase.shift distance).parts = phrase.parts.map (shift distance) := by
  cases phrase
  simp only [parts, shift, shiftAll_eq_map, List.map_append]

theorem Everywhere.shift {property moved : Phrase → Prop} {distance : Nat} (h : phrase.Everywhere property)
    (himp : ∀ inner, property inner → moved (inner.shift distance)) :
    (phrase.shift distance).Everywhere moved := by
  induction h with
  | intro here _ ih =>
      refine .intro (himp _ here) ?_
      rw [shift_parts]
      exact List.forall_mem_map.mpr ih

theorem TokensBy.shift (h : phrase.TokensBy limit) (distance : Nat) :
    (phrase.shift distance).TokensBy (limit + distance) := by
  refine Everywhere.shift h ?_
  rintro inner hstop ⟨hparts, hkind⟩
  rw [shift_parts, List.map_eq_nil_iff] at hparts
  rw [shift_kind] at hkind
  rw [shift_stop]
  exact Nat.add_le_add_right (hstop ⟨hparts, hkind⟩) distance

theorem InOrder.shift (h : phrase.InOrder) (distance : Nat) : (phrase.shift distance).InOrder := by
  refine Everywhere.shift h ?_
  intro inner hpairs
  rw [shift_parts, List.pairwise_map]
  refine hpairs.imp fun htokens => ?_
  rw [shift_start]
  exact htokens.shift distance

end Gamebook.Phrase
