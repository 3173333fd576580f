import Gamebook.Phrase

/-!
How phrases are put together. Every phrase of a scene comes from phrases without parts, or around
parts that were there before, by adding parts, by raising issues and by extending to an offset. What
holds of all phrases that are put together in this way, out of given kinds and at given places, holds
of everything the grammar recognises: a phrase encloses its parts and its issues, and all its ends
are among the places.
-/

namespace Gamebook.Phrase

/-! ### The operations, field by field -/

@[simp] theorem empty_parts (kind : Kind) (offset : Nat) : (empty kind offset).parts = [] := rfl

@[simp] theorem reach_start (phrase : Phrase) (stop : Nat) :
    (phrase.reach stop).start = phrase.start := Nat.min_self _

@[simp] theorem reach_stop (phrase : Phrase) (stop : Nat) :
    (phrase.reach stop).stop = max phrase.stop stop := rfl

@[simp] theorem add_parts (phrase part : Phrase) :
    (phrase.add part).parts = phrase.parts ++ [part] := (List.append_assoc _ _ _).symm

@[simp] theorem flag_kind (phrase : Phrase) (rule : Rule) (offset length : Nat) :
    (phrase.flag rule offset length).kind = phrase.kind := rfl

@[simp] theorem flag_start (phrase : Phrase) (rule : Rule) (offset length : Nat) :
    (phrase.flag rule offset length).start = min phrase.start offset := rfl

@[simp] theorem flag_issues (phrase : Phrase) (rule : Rule) (offset length : Nat) :
    (phrase.flag rule offset length).issues = phrase.issues ++ [⟨rule, offset, length⟩] := rfl

theorem mem_issues_flag {phrase : Phrase} {rule : Rule} {offset length : Nat} {issue : Issue} :
    issue ∈ (phrase.flag rule offset length).issues ↔ issue ∈ phrase.issues ∨ issue = ⟨rule, offset, length⟩ := by
  rw [flag_issues, List.mem_append, List.mem_singleton]

/-- In a marked phrase the rules are broken that were broken before, and the rule of the mark. -/
theorem exists_issue_flag {phrase : Phrase} {rule broken : Rule} {offset length : Nat} :
    (∃ issue ∈ (phrase.flag rule offset length).issues, issue.rule = broken) ↔
      (∃ issue ∈ phrase.issues, issue.rule = broken) ∨ rule = broken := by
  simp only [mem_issues_flag, or_and_right, exists_or, exists_eq_left]

@[simp] theorem addAll_nil (phrase : Phrase) : phrase.addAll [] = phrase := by
  cases phrase
  simp [addAll]

theorem addAll_cons (phrase part : Phrase) (more : List Phrase) :
    phrase.addAll (part :: more) = (phrase.add part).addAll more := by
  simp [addAll, add, grow]

theorem addAll_singleton (phrase part : Phrase) : phrase.addAll [part] = phrase.add part := by
  rw [addAll_cons, addAll_nil]

/-- Parts that do not begin before a phrase leave its start where it is. -/
theorem addAll_start {phrase : Phrase} {parts : List Phrase}
    (hparts : ∀ part ∈ parts, phrase.start ≤ part.start) : (phrase.addAll parts).start = phrase.start := by
  induction parts generalizing phrase with
  | nil => rw [addAll_nil]
  | cons part more ih =>
      have hstart : (phrase.add part).start = phrase.start := Nat.min_eq_left (hparts part (by simp))
      rw [addAll_cons, ih, hstart]
      intro other hother
      rw [hstart]
      exact hparts other (by simp [hother])

theorem addAll_start_le (phrase : Phrase) (parts : List Phrase) : (phrase.addAll parts).start ≤ phrase.start := by
  induction parts generalizing phrase with
  | nil => exact Nat.le_of_eq (congrArg (·.start) phrase.addAll_nil)
  | cons part more ih =>
      rw [addAll_cons]
      exact Nat.le_trans (ih _) (Nat.min_le_left _ _)

@[simp] theorem addAll_parts (phrase : Phrase) (parts : List Phrase) :
    (phrase.addAll parts).parts = phrase.parts ++ parts := (List.append_assoc _ _ _).symm

theorem addAll_append (phrase : Phrase) (parts more : List Phrase) :
    phrase.addAll (parts ++ more) = (phrase.addAll parts).addAll more := by
  simp [addAll]

/-- The phrase with all its parts counted as begun before it. -/
def settled (phrase : Phrase) : Phrase := { phrase with before := phrase.parts, after := [] }

@[simp] theorem settled_parts (phrase : Phrase) : phrase.settled.parts = phrase.parts :=
  List.append_nil _

/-- A phrase around parts is a phrase to which they were added, but for the order in which the phrases
were begun. -/
theorem around_eq_settled (kind : Kind) (offset : Nat) (parts : List Phrase) :
    around kind offset parts = ((empty kind offset).addAll parts).settled := rfl

/-! ### What can be put together -/

/-- Put together from phrases of the given kinds, with all ends and issues at the given places. -/
inductive Built (kinds : Kind → Prop) (places : Nat → Prop) : Phrase → Prop
  | empty {kind : Kind} {offset : Nat} (hkind : kinds kind) (hplace : places offset) :
      Built kinds places (.empty kind offset)
  | add {phrase part : Phrase} (hphrase : Built kinds places phrase)
      (hpart : Built kinds places part) : Built kinds places (phrase.add part)
  | settle {phrase : Phrase} (hphrase : Built kinds places phrase) : Built kinds places phrase.settled
  | flag {phrase : Phrase} {rule : Rule} {offset length : Nat} (hphrase : Built kinds places phrase)
      (hoffset : places offset) (hstop : places (offset + length)) :
      Built kinds places (phrase.flag rule offset length)
  | reach {phrase : Phrase} {stop : Nat} (hphrase : Built kinds places phrase)
      (hstop : places stop) : Built kinds places (phrase.reach stop)

variable {kinds : Kind → Prop} {places : Nat → Prop}

theorem Built.addAll {phrase : Phrase} {parts : List Phrase} (hphrase : Built kinds places phrase)
    (hparts : ∀ part ∈ parts, Built kinds places part) :
    Built kinds places (phrase.addAll parts) := by
  induction parts generalizing phrase with
  | nil => rwa [addAll_nil]
  | cons part more ih =>
      rw [addAll_cons]
      exact ih (hphrase.add (hparts part (by simp))) fun other hother => hparts other (by simp [hother])

theorem Built.mono {kinds' : Kind → Prop} {places' : Nat → Prop} {phrase : Phrase}
    (hphrase : Built kinds places phrase) (hkinds : ∀ kind, kinds kind → kinds' kind)
    (hplaces : ∀ offset, places offset → places' offset) : Built kinds' places' phrase := by
  induction hphrase with
  | empty hkind hplace => exact .empty (hkinds _ hkind) (hplaces _ hplace)
  | add _ _ ihphrase ihpart => exact .add ihphrase ihpart
  | settle _ ih => exact .settle ih
  | flag _ hoffset hstop ih => exact .flag ih (hplaces _ hoffset) (hplaces _ hstop)
  | reach _ hstop ih => exact .reach ih (hplaces _ hstop)

/-! ### Moving a phrase -/

theorem shiftAll_eq_map (distance : Nat) (phrases : List Phrase) :
    shiftAll distance phrases = phrases.map (shift distance) := by
  induction phrases with
  | nil => rfl
  | cons phrase more ih => rw [shiftAll, ih, List.map_cons]

mutual

theorem shift_zero : (phrase : Phrase) → phrase.shift 0 = phrase
  | ⟨kind, start, stop, issues, before, after⟩ => by
      have hissue : Issue.shift 0 = id := rfl
      rw [shift, shiftAll_zero before, shiftAll_zero after, hissue, List.map_id, Nat.add_zero, Nat.add_zero]

theorem shiftAll_zero : (phrases : List Phrase) → shiftAll 0 phrases = phrases
  | [] => by rw [shiftAll]
  | phrase :: more => by rw [shiftAll, shift_zero phrase, shiftAll_zero more]

end

@[simp] theorem shift_kind (distance : Nat) (phrase : Phrase) :
    (phrase.shift distance).kind = phrase.kind := by
  cases phrase
  rw [shift]

@[simp] theorem shift_start (distance : Nat) (phrase : Phrase) :
    (phrase.shift distance).start = phrase.start + distance := by
  cases phrase
  rw [shift]

@[simp] theorem shift_stop (distance : Nat) (phrase : Phrase) :
    (phrase.shift distance).stop = phrase.stop + distance := by
  cases phrase
  rw [shift]

theorem shift_before (distance : Nat) (phrase : Phrase) :
    (phrase.shift distance).before = phrase.before.map (shift distance) := by
  cases phrase
  rw [shift, shiftAll_eq_map]

theorem shift_after (distance : Nat) (phrase : Phrase) :
    (phrase.shift distance).after = phrase.after.map (shift distance) := by
  cases phrase
  rw [shift, shiftAll_eq_map, shiftAll_eq_map]

theorem shift_grow (distance start stop : Nat) (phrase : Phrase) :
    (phrase.grow start stop).shift distance =
      (phrase.shift distance).grow (start + distance) (stop + distance) := by
  cases phrase
  simp only [grow, shift, Nat.add_min_add_right, Nat.add_max_add_right]

theorem shift_reach (distance stop : Nat) (phrase : Phrase) :
    (phrase.reach stop).shift distance = (phrase.shift distance).reach (stop + distance) := by
  rw [reach, shift_grow, reach, shift_start]

theorem shift_add (distance : Nat) (phrase part : Phrase) :
    (phrase.add part).shift distance = (phrase.shift distance).add (part.shift distance) := by
  rw [add, shift_grow, add]
  cases phrase
  simp only [shift, shift_start, shift_stop, shiftAll_eq_map, List.map_append, List.map_cons,
    List.map_nil]

theorem shift_flag (distance : Nat) (phrase : Phrase) (rule : Rule) (offset length : Nat) :
    (phrase.flag rule offset length).shift distance =
      (phrase.shift distance).flag rule (offset + distance) length := by
  rw [flag, shift_grow, flag]
  cases phrase
  simp only [shift, List.map_append, List.map_cons, List.map_nil, Issue.shift, Issue.stop,
    Nat.add_right_comm]

theorem shift_empty (distance : Nat) (kind : Kind) (offset : Nat) :
    (empty kind offset).shift distance = empty kind (offset + distance) := rfl

theorem shift_settled (distance : Nat) (phrase : Phrase) :
    phrase.settled.shift distance = (phrase.shift distance).settled := by
  cases phrase
  simp only [settled, parts, shift, shiftAll_eq_map, List.map_append, List.map_nil]

/-- A phrase that is moved is built at the places that its places are moved to. -/
theorem Built.shift {places' : Nat → Prop} {distance : Nat} {phrase : Phrase}
    (hphrase : Built kinds places phrase)
    (hplaces : ∀ offset, places offset → places' (offset + distance)) :
    Built kinds places' (phrase.shift distance) := by
  induction hphrase with
  | empty hkind hplace =>
      rw [shift_empty]
      exact .empty hkind (hplaces _ hplace)
  | add _ _ ihphrase ihpart =>
      rw [shift_add]
      exact .add ihphrase ihpart
  | settle _ ih =>
      rw [shift_settled]
      exact .settle ih
  | flag _ hoffset hstop ih =>
      rw [shift_flag]
      refine .flag ih (hplaces _ hoffset) ?_
      rw [Nat.add_right_comm]
      exact hplaces _ hstop
  | reach _ hstop ih =>
      rw [shift_reach]
      exact .reach ih (hplaces _ hstop)

/-! ### What everything that is built has in common -/

/-- A property of a phrase and of all phrases inside it. -/
inductive Everywhere (property : Phrase → Prop) : Phrase → Prop
  | intro {phrase : Phrase} (here : property phrase)
      (below : ∀ part ∈ phrase.parts, Everywhere property part) : Everywhere property phrase

theorem Everywhere.here {property : Phrase → Prop} {phrase : Phrase}
    (h : Everywhere property phrase) : property phrase := by
  cases h with
  | intro here _ => exact here

theorem Everywhere.part {property : Phrase → Prop} {phrase part : Phrase}
    (h : Everywhere property phrase) (hpart : part ∈ phrase.parts) : Everywhere property part := by
  cases h with
  | intro _ below => exact below part hpart

/-- A phrase of one of the kinds that encloses its parts and its issues, all of them between
places. -/
structure Sound (kinds : Kind → Prop) (places : Nat → Prop) (phrase : Phrase) : Prop where
  kind : kinds phrase.kind
  start : places phrase.start
  stop : places phrase.stop
  ordered : phrase.start ≤ phrase.stop
  parts : ∀ part ∈ phrase.parts, phrase.start ≤ part.start ∧ part.stop ≤ phrase.stop
  issues : ∀ issue ∈ phrase.issues, phrase.start ≤ issue.offset ∧ issue.stop ≤ phrase.stop ∧
    places issue.offset ∧ places issue.stop

theorem Sound.grow {phrase : Phrase} {start stop : Nat} (h : Sound kinds places phrase)
    (hstart : places start) (hstop : places stop) :
    Sound kinds places (phrase.grow start stop) where
  kind := h.kind
  start := by
    show places (min phrase.start start)
    rcases Nat.le_total phrase.start start with hle | hle
    · rw [Nat.min_eq_left hle]
      exact h.start
    · rw [Nat.min_eq_right hle]
      exact hstart
  stop := by
    show places (max phrase.stop stop)
    rcases Nat.le_total phrase.stop stop with hle | hle
    · rw [Nat.max_eq_right hle]
      exact hstop
    · rw [Nat.max_eq_left hle]
      exact h.stop
  ordered := Nat.le_trans (Nat.min_le_left _ _) (Nat.le_trans h.ordered (Nat.le_max_left _ _))
  parts part hpart := by
    obtain ⟨hfrom, hto⟩ := h.parts part hpart
    exact ⟨Nat.le_trans (Nat.min_le_left _ _) hfrom, Nat.le_trans hto (Nat.le_max_left _ _)⟩
  issues issue hissue := by
    obtain ⟨hfrom, hto, hplaces⟩ := h.issues issue hissue
    exact ⟨Nat.le_trans (Nat.min_le_left _ _) hfrom, Nat.le_trans hto (Nat.le_max_left _ _), hplaces⟩

theorem Sound.add {phrase part : Phrase} (h : Sound kinds places phrase)
    (hpart : Sound kinds places part) : Sound kinds places (phrase.add part) := by
  have hgrown := h.grow hpart.start hpart.stop
  refine ⟨hgrown.kind, hgrown.start, hgrown.stop, hgrown.ordered, ?_, hgrown.issues⟩
  intro other hother
  rw [add_parts, List.mem_append, List.mem_singleton] at hother
  rcases hother with hother | rfl
  · exact hgrown.parts other hother
  · exact ⟨Nat.min_le_right _ _, Nat.le_max_right _ _⟩

theorem Sound.flag {phrase : Phrase} {rule : Rule} {offset length : Nat}
    (h : Sound kinds places phrase) (hoffset : places offset) (hstop : places (offset + length)) :
    Sound kinds places (phrase.flag rule offset length) := by
  have hgrown := h.grow hoffset hstop
  refine ⟨hgrown.kind, hgrown.start, hgrown.stop, hgrown.ordered, hgrown.parts, ?_⟩
  intro issue hissue
  rcases mem_issues_flag.mp hissue with hissue | rfl
  · exact hgrown.issues issue hissue
  · exact ⟨Nat.min_le_right _ _, Nat.le_max_right _ _, hoffset, hstop⟩

theorem sound_empty {kind : Kind} {offset : Nat} (hkind : kinds kind) (hplace : places offset) :
    Sound kinds places (empty kind offset) :=
  ⟨hkind, hplace, hplace, Nat.le_refl _, by simp, by simp [empty]⟩

/-- Whatever is built is sound, and so is everything inside it. -/
theorem Built.sound {phrase : Phrase} (h : Built kinds places phrase) :
    Everywhere (Sound kinds places) phrase := by
  induction h with
  | empty hkind hplace => exact .intro (sound_empty hkind hplace) (by simp)
  | add _ _ ihphrase ihpart =>
      refine .intro (ihphrase.here.add ihpart.here) ?_
      intro other hother
      rw [add_parts, List.mem_append, List.mem_singleton] at hother
      rcases hother with hother | rfl
      · exact ihphrase.part hother
      · exact ihpart
  | settle _ ih =>
      have hsound := ih.here
      refine .intro ⟨hsound.kind, hsound.start, hsound.stop, hsound.ordered, ?_, hsound.issues⟩ ?_
      · intro part hpart
        exact hsound.parts part (by rwa [settled_parts] at hpart)
      · intro part hpart
        exact ih.part (by rwa [settled_parts] at hpart)
  | flag _ hoffset hstop ih => exact .intro (ih.here.flag hoffset hstop) fun _ hpart => ih.part hpart
  | reach _ hstop ih => exact .intro (ih.here.grow ih.here.start hstop) fun _ hpart => ih.part hpart

end Gamebook.Phrase
