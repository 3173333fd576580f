import Gamebook.Proofs.Grammar.Statement
import Gamebook.Proofs.Phrase.Order
import Mathlib.Data.List.Forall2

/-!
Phrases that say the same. Where two scenes have lines in common, what is read on these lines is the same
but for the offsets and for the numbers of the lines. A correspondence says how these change from one
scene to the other; two phrases are alike if they correspond and their parts do, one by one, apart from
gaps where nothing needs to correspond.
-/

namespace Gamebook

namespace Kind

def renumber (lines : Nat) : Kind → Kind
  | .line number indent type => .line (number + lines) indent type
  | kind => kind

/-- The kinds of phrases that lines can stand in, and of lines themselves. -/
def holdsLines : Kind → Bool
  | .scene _ _ | .line _ _ _ => true
  | kind => kind.opensBlock

def isOption : Kind → Bool
  | .choiceOption _ _ => true
  | _ => false

theorem renumber_of_isContent (lines : Nat) {kind : Kind} (h : kind.isContent = true) :
    kind.renumber lines = kind := by
  cases kind <;> first | rfl | cases h

@[simp] theorem renumber_zero (kind : Kind) : kind.renumber 0 = kind := by cases kind <;> rfl

theorem holdsLines_of_opensBlock {kind : Kind} (h : kind.opensBlock = true) : kind.holdsLines = true := by
  cases kind <;> first | rfl | exact h

theorem isOption_renumber (lines : Nat) (kind : Kind) : (kind.renumber lines).isOption = kind.isOption := by
  cases kind <;> rfl

end Kind

/-- How one scene corresponds to another: by how many the numbers of lines increase, which range there
stands for a range here, where something that lines stand in can end, and which rules count. -/
structure Correspondence where
  lines : Nat
  range : Nat → Nat → Nat → Nat → Prop
  ends : Nat → Nat → Prop
  shown : Rule → Bool
  ends_of_range : ∀ {start stop start' stop'}, range start stop start' stop' → ends stop stop'
  ends_max : ∀ {left left' right right'}, ends left left' → ends right right' →
    ends (max left right) (max left' right')

theorem Issue.shift_stop (distance : Nat) (issue : Issue) :
    (issue.shift distance).stop = issue.stop + distance := Nat.add_right_comm _ _ _

structure Issue.Alike (c : Correspondence) (left right : Issue) : Prop where
  rule : right.rule = left.rule
  length : right.length = left.length
  range : c.range left.offset left.stop right.offset right.stop

namespace Phrase

structure Agrees (c : Correspondence) (left right : Phrase) : Prop where
  kind : right.kind = left.kind.renumber c.lines
  start : c.range left.start left.start right.start right.start
  stop : c.ends left.stop right.stop
  whole : left.kind.holdsLines = false → c.range left.start left.stop right.start right.stop
  issues : List.Forall₂ (Issue.Alike c) (left.issues.filter (c.shown ·.rule))
    (right.issues.filter (c.shown ·.rule))

/-- The phrases correspond and so do their parts, one by one, apart from gaps. -/
inductive Alike (c : Correspondence) (gap : Phrase → Phrase → Prop) : Phrase → Phrase → Prop
  | gap {left right : Phrase} (h : gap left right) : Alike c gap left right
  | agree {left right : Phrase} (h : left.Agrees c right) (hlength : left.parts.length = right.parts.length)
      (hparts : ∀ pair ∈ left.parts.zip right.parts, Alike c gap pair.1 pair.2) : Alike c gap left right

variable {c : Correspondence} {gap : Phrase → Phrase → Prop} {left right : Phrase}

/-- Gaps that do not show outside: they end where they may, and hold options on both sides or on none. -/
structure Gaps (c : Correspondence) (gap : Phrase → Phrase → Prop) : Prop where
  stop : ∀ {left right}, gap left right → c.ends left.stop right.stop
  option : ∀ {left right}, gap left right → left.any Kind.isOption = right.any Kind.isOption

theorem alike_of_forall₂ (h : left.Agrees c right)
    (hparts : List.Forall₂ (Alike c gap) left.parts right.parts) : left.Alike c gap right := by
  obtain ⟨hlength, hpairs⟩ := List.forall₂_iff_zip.mp hparts
  exact .agree h hlength fun pair hpair => hpairs hpair

theorem forall₂_of_zip {relation : Phrase → Phrase → Prop} {parts parts' : List Phrase}
    (hlength : parts.length = parts'.length) (hparts : ∀ pair ∈ parts.zip parts', relation pair.1 pair.2) :
    List.Forall₂ relation parts parts' :=
  List.forall₂_iff_zip.mpr ⟨hlength, fun hpair => hparts _ hpair⟩

/-! ### Whether something is inside -/

theorem anyOf_eq (test : Kind → Bool) (phrases : List Phrase) :
    anyOf test phrases = phrases.any (any test) := by
  induction phrases with
  | nil => rfl
  | cons phrase more ih => rw [anyOf, ih, List.any_cons]

theorem any_eq (test : Kind → Bool) (phrase : Phrase) :
    phrase.any test = (test phrase.kind || phrase.parts.any (any test)) := by
  cases phrase
  rw [any, anyOf_eq, anyOf_eq, parts, List.any_append, Bool.or_assoc]

theorem any_eq_of_forall₂ {test : Kind → Bool} {parts parts' : List Phrase}
    (h : List.Forall₂ (fun left right => any test left = any test right) parts parts') :
    parts.any (any test) = parts'.any (any test) := by
  induction h with
  | nil => rfl
  | cons hfirst _ ih => rw [List.any_cons, List.any_cons, hfirst, ih]

theorem Alike.any_isOption (hgaps : Gaps c gap) (h : left.Alike c gap right) :
    left.any Kind.isOption = right.any Kind.isOption := by
  induction h with
  | gap h => exact hgaps.option h
  | agree h hlength _ ih =>
      have hparts : List.Forall₂ (fun left right => any Kind.isOption left = any Kind.isOption right) _ _ :=
        forall₂_of_zip hlength ih
      rw [any_eq, any_eq, h.kind, Kind.isOption_renumber, any_eq_of_forall₂ hparts]

theorem Alike.stop (hgaps : Gaps c gap) (h : left.Alike c gap right) : c.ends left.stop right.stop := by
  cases h with
  | gap h => exact hgaps.stop h
  | agree h _ _ => exact h.stop

/-! ### The same phrase at two places -/

theorem shift_issues (distance : Nat) (phrase : Phrase) :
    (phrase.shift distance).issues = phrase.issues.map (·.shift distance) := by
  cases phrase
  rw [shift]

section Shift

variable {kinds : Kind → Prop} {places : Nat → Prop} {distance distance' : Nat} {phrase : Phrase}
  (hkinds : ∀ kind, kinds kind → kind.renumber c.lines = kind)
  (hplaces : ∀ start stop, places start → places stop → start ≤ stop →
    c.range (start + distance) (stop + distance) (start + distance') (stop + distance'))
include hkinds hplaces

theorem agrees_shift (hsound : phrase.Sound kinds places) :
    (phrase.shift distance).Agrees c (phrase.shift distance') := by
  have hwhole := hplaces _ _ hsound.start hsound.stop hsound.ordered
  refine ⟨?_, ?_, ?_, ?_, ?_⟩
  · rw [shift_kind, shift_kind, hkinds _ hsound.kind]
  · rw [shift_start, shift_start]
    exact hplaces _ _ hsound.start hsound.start (Nat.le_refl _)
  · rw [shift_stop, shift_stop]
    exact c.ends_of_range hwhole
  · intro _
    rw [shift_start, shift_start, shift_stop, shift_stop]
    exact hwhole
  · rw [shift_issues, shift_issues, List.filter_map, List.filter_map, List.forall₂_map_left_iff,
      List.forall₂_map_right_iff]
    refine (List.forall₂_same (l := phrase.issues.filter (c.shown ·.rule))).mpr ?_
    intro issue hissue
    obtain ⟨_, _, hfrom, hto⟩ := hsound.issues issue (List.mem_filter.mp hissue).1
    refine ⟨rfl, rfl, ?_⟩
    rw [Issue.shift_stop, Issue.shift_stop]
    exact hplaces _ _ hfrom hto (Nat.le_add_right _ _)

/-- What stands on a line is alike wherever the line is. -/
theorem alike_shift (hphrase : phrase.Everywhere (Sound kinds places)) :
    (phrase.shift distance).Alike c gap (phrase.shift distance') := by
  induction hphrase with
  | intro hsound _ ih =>
      refine alike_of_forall₂ (agrees_shift hkinds hplaces hsound) ?_
      rw [shift_parts, shift_parts, List.forall₂_map_left_iff, List.forall₂_map_right_iff, List.forall₂_same]
      exact ih

theorem alike_shift_parts (hphrase : phrase.Everywhere (Sound kinds places)) :
    List.Forall₂ (Alike c gap) (phrase.shift distance).parts (phrase.shift distance').parts := by
  rw [shift_parts, shift_parts, List.forall₂_map_left_iff, List.forall₂_map_right_iff, List.forall₂_same]
  exact fun part hpart => alike_shift hkinds hplaces (hphrase.part hpart)

end Shift

/-! ### What lines stand in -/

theorem agrees_empty {kind : Kind} {offset offset' : Nat} (hrange : c.range offset offset offset' offset') :
    (empty kind offset).Agrees c (empty (kind.renumber c.lines) offset') :=
  ⟨rfl, hrange, c.ends_of_range hrange, fun _ => hrange, .nil⟩

section Outer

variable (h : left.Agrees c right) (hkind : left.kind.holdsLines = true)
include h hkind

theorem Agrees.reach {stop stop' : Nat} (hstop : c.ends stop stop') :
    (left.reach stop).Agrees c (right.reach stop') := by
  refine ⟨h.kind, ?_, c.ends_max h.stop hstop, (fun hnot => nomatch hkind.symm.trans hnot), h.issues⟩
  rw [reach_start, reach_start]
  exact h.start

theorem Agrees.add {part part' : Phrase} (hstop : c.ends part.stop part'.stop)
    (hstart : left.start ≤ part.start) (hstart' : right.start ≤ part'.start) :
    (left.add part).Agrees c (right.add part') := by
  refine ⟨h.kind, ?_, c.ends_max h.stop hstop, (fun hnot => nomatch hkind.symm.trans hnot), h.issues⟩
  show c.range (min _ _) (min _ _) (min _ _) (min _ _)
  rw [Nat.min_eq_left hstart, Nat.min_eq_left hstart']
  exact h.start

theorem Agrees.addAll {parts parts' : List Phrase}
    (hstops : List.Forall₂ (fun part part' => c.ends part.stop part'.stop) parts parts')
    (hstarts : ∀ part ∈ parts, left.start ≤ part.start) (hstarts' : ∀ part ∈ parts', right.start ≤ part.start) :
    (left.addAll parts).Agrees c (right.addAll parts') := by
  induction hstops generalizing left right with
  | nil =>
      rw [addAll_nil, addAll_nil]
      exact h
  | @cons part part' more more' hstop _ ih =>
      obtain ⟨hfirst, hmore⟩ := List.forall_mem_cons.mp hstarts
      obtain ⟨hfirst', hmore'⟩ := List.forall_mem_cons.mp hstarts'
      have hstart : (left.add part).start = left.start := Nat.min_eq_left hfirst
      have hstart' : (right.add part').start = right.start := Nat.min_eq_left hfirst'
      rw [addAll_cons, addAll_cons]
      refine ih (h.add hkind hstop hfirst hfirst') hkind ?_ ?_
      · rwa [hstart]
      · rwa [hstart']

theorem Agrees.flagStart {rule : Rule} {length : Nat}
    (hrange : c.range left.start (left.start + length) right.start (right.start + length)) :
    (left.flag rule left.start length).Agrees c (right.flag rule right.start length) := by
  refine ⟨h.kind, ?_, c.ends_max h.stop (c.ends_of_range hrange),
    (fun hnot => nomatch hkind.symm.trans hnot), ?_⟩
  · rw [flag_start, flag_start, Nat.min_self, Nat.min_self]
    exact h.start
  · rw [flag_issues, flag_issues, List.filter_append, List.filter_append]
    refine List.rel_append h.issues ?_
    cases hshown : c.shown rule with
    | false => simp [hshown]
    | true => simpa [hshown] using ⟨rfl, rfl, hrange⟩

end Outer

end Phrase

end Gamebook
