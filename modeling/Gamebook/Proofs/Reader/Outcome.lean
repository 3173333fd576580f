import Gamebook.Proofs.Reader.Reach

/-!
Outcomes of rules. Whatever a rule does with a phrase, it does step by step: its reader goes on, a part
that was begun where the reader stands is added, an issue is raised at a place of the line, the phrase is
extended to the end of what was taken last. This is shown here for what all rules are made of; the rules
themselves follow one by one, and what their outcomes have in common is derived from the steps.
-/

namespace Gamebook

namespace Kind

/-- The kinds of what a line holds: all but those of the scene, of its lines and of indentation. -/
def isContent : Kind → Bool
  | .scene _ _ | .line _ _ _ | .indentation _ _ => false
  | _ => true

def isPart : Kind → Bool
  | .sceneRef | .labelRef | .numericValue | .stringValue | .stringLiteral | .boolean _ | .hexColorValue
  | .expression _ | .binaryExpression _ | .stringExpression _ | .term _ _ | .operator _ _ | .var | .label
  | .standardCommand _ | .realWord | .variableReplacement _ | .multiReplace | .multiReplaceOption => true
  | _ => false

def isLeaf : Kind → Bool
  | .indentation _ _ | .sceneRef | .numericValue | .stringValue | .stringLiteral | .boolean _
  | .hexColorValue | .operator _ _ | .var | .label | .realWord | .comment => true
  | _ => false

theorem isContent_of_isPart {kind : Kind} (h : kind.isPart = true) : kind.isContent = true := by
  cases kind <;> first | rfl | cases h

end Kind

/-- The rule is reported as an error unless it is set to another level. -/
def Rule.IsError (rule : Rule) : Prop := ({} : Levels).of rule = .error

instance : DecidablePred Rule.IsError := fun _ => inferInstanceAs (Decidable (_ = _))

/-- What is reported as an error is never set to another level. -/
theorem Rule.IsError.of_eq_error {rule : Rule} (h : rule.IsError) (levels : Levels) : levels.of rule = .error := by
  cases rule <;> first | rfl | cases h

/-- A phrase that can stand on a line with the given places. -/
abbrev Phrase.Content (places : Nat → Prop) (phrase : Phrase) : Prop :=
  phrase.Built (fun kind => kind.isContent = true) places

namespace Phrase

/-- What a phrase can grow to while a reader goes on. An issue is an error, apart from a deprecated sign,
and on a leaf it does not reach beyond what the reader has left behind. -/
inductive Grows : Phrase → Reader → Phrase → Reader → Prop
  | refl {phrase : Phrase} {r : Reader} : Grows phrase r phrase r
  | skip {phrase grown : Phrase} {r behind further : Reader} (h : Grows phrase r grown behind)
      (hreach : behind.Reaches further) : Grows phrase r grown further
  | add {phrase grown part : Phrase} {r behind further : Reader} {kind : Kind}
      (h : Grows phrase r grown behind) (hkind : kind.isPart = true)
      (hpart : Grows (.begin kind behind) behind part further) : Grows phrase r (grown.add part) further
  | settle {phrase grown : Phrase} {r behind : Reader} (h : Grows phrase r grown behind) :
      Grows phrase r grown.settled behind
  | finish {phrase grown : Phrase} {r behind : Reader} (h : Grows phrase r grown behind) :
      Grows phrase r (grown.finish behind) behind
  | flag {phrase grown : Phrase} {r behind : Reader} {rule : Rule} {offset length : Nat}
      (h : Grows phrase r grown behind) (hoffset : r.Ahead offset) (hstop : r.Site (offset + length))
      (hrule : rule.IsError ∨ rule = .deprecatedModulo ∧ grown.kind.isLeaf = true)
      (hleaf : grown.kind.isLeaf = true → offset + length ≤ max behind.offset behind.lastEnd) :
      Grows phrase r (grown.flag rule offset length) behind

variable {phrase grown : Phrase} {r behind further : Reader}

theorem Grows.reaches (h : phrase.Grows r grown behind) : r.Reaches behind := by
  induction h with
  | refl => exact .refl
  | skip _ hreach ih => exact ih.trans hreach
  | add _ _ _ ih ihpart => exact ih.trans ihpart
  | settle _ ih => exact ih
  | finish _ ih => exact ih
  | flag _ _ _ _ _ ih => exact ih

theorem Grows.trans {more : Phrase} (hfirst : phrase.Grows r grown behind)
    (hsecond : grown.Grows behind more further) : phrase.Grows r more further := by
  induction hsecond with
  | refl => exact hfirst
  | skip _ hreach ih => exact .skip (ih hfirst) hreach
  | add _ hkind hpart ih _ => exact .add (ih hfirst) hkind hpart
  | settle _ ih => exact .settle (ih hfirst)
  | finish _ ih => exact .finish (ih hfirst)
  | flag _ hoffset hstop hrule hleaf ih =>
      exact .flag (ih hfirst) (hfirst.reaches.ahead hoffset) (hfirst.reaches.site hstop) hrule hleaf

theorem Grows.kind_eq (h : phrase.Grows r grown behind) : grown.kind = phrase.kind := by
  induction h with
  | refl => rfl
  | skip _ _ ih => exact ih
  | add _ _ _ ih _ => exact ih
  | settle _ ih => exact ih
  | finish _ ih => exact ih
  | flag _ _ _ _ _ ih => exact ih

theorem Grows.start_eq (h : phrase.Grows r grown behind) (hstart : phrase.start = r.offset) :
    grown.start = r.offset := by
  induction h with
  | refl => exact hstart
  | skip _ _ ih => exact ih hstart
  | add h _ _ ih ihpart =>
      show min _ _ = _
      rw [ih hstart, ihpart rfl]
      exact Nat.min_eq_left h.reaches.offset_le
  | settle _ ih => exact ih hstart
  | finish _ ih =>
      show min _ _ = _
      rw [ih hstart, Nat.min_self]
  | flag _ hoffset _ _ _ ih =>
      show min _ _ = _
      rw [ih hstart]
      exact Nat.min_eq_left hoffset.offset_le

theorem site_max {left right : Nat} (hleft : r.Site left) (hright : r.Site right) :
    r.Site (max left right) := by
  rw [Nat.max_def]
  split
  · exact hright
  · exact hleft

theorem Grows.site_stop (h : phrase.Grows r grown behind) (hstop : r.Site phrase.stop) :
    r.Site grown.stop := by
  induction h with
  | refl => exact hstop
  | skip _ _ ih => exact ih hstop
  | add h _ _ ih ihpart => exact site_max (ih hstop) (h.reaches.site (ihpart (.inr (Reader.ahead_offset _))))
  | settle _ ih => exact ih hstop
  | finish h ih => exact site_max (ih hstop) h.reaches.site_lastEnd
  | flag _ _ hflag _ _ ih => exact site_max (ih hstop) hflag

theorem Grows.built {kinds : Kind → Prop} {places : Nat → Prop} (h : phrase.Grows r grown behind)
    (hphrase : phrase.Built kinds places) (hplaces : ∀ offset, r.Site offset → places offset)
    (hkinds : ∀ kind, kind.isPart = true → kinds kind) : grown.Built kinds places := by
  induction h with
  | refl => exact hphrase
  | skip _ _ ih => exact ih hphrase hplaces
  | add h hkind _ ih ihpart =>
      have hbehind := fun offset hsite => hplaces offset (h.reaches.site hsite)
      exact .add (ih hphrase hplaces)
        (ihpart (.empty (hkinds _ hkind) (hbehind _ (.inr (Reader.ahead_offset _)))) hbehind)
  | settle _ ih => exact .settle (ih hphrase hplaces)
  | finish h ih => exact .reach (ih hphrase hplaces) (hplaces _ h.reaches.site_lastEnd)
  | flag _ hoffset hstop _ _ ih => exact .flag (ih hphrase hplaces) (hplaces _ (.inr hoffset)) (hplaces _ hstop)

/-- Whatever is added to a phrase is of kinds that stand inside statements. -/
theorem Grows.parts_built (h : phrase.Grows r grown behind)
    (hparts : ∀ part ∈ phrase.parts, part.Built (fun kind => kind.isPart = true) fun _ => True) :
    ∀ part ∈ grown.parts, part.Built (fun kind => kind.isPart = true) fun _ => True := by
  induction h with
  | refl => exact hparts
  | skip _ _ ih => exact ih hparts
  | add _ hkind hpart ih _ =>
      have hbuilt := hpart.built (.empty hkind trivial) (fun _ _ => trivial) fun _ hkind => hkind
      rw [add_parts]
      exact List.forall_mem_append.mpr ⟨ih hparts, List.forall_mem_singleton.mpr hbuilt⟩
  | settle _ ih =>
      rw [settled_parts]
      exact ih hparts
  | finish _ ih => exact ih hparts
  | flag _ _ _ _ _ ih => exact ih hparts

end Phrase

namespace Reader

/-- A phrase of one of the kinds is read on the way from one reader to another. -/
def Reads (kinds : Kind → Bool) (r : Reader) (phrase : Phrase) (behind : Reader) : Prop :=
  ∃ kind begun, kinds kind = true ∧ r.Reaches begun ∧ (Phrase.begin kind begun).Grows begun phrase behind

/-- The outcome of a rule that always recognises something, and takes the next lexeme. -/
structure Yields (r : Reader) (outcome : Phrase × Reader) : Prop where
  reads : r.Reads Kind.isPart outcome.1 outcome.2
  taken : r.next.Reaches outcome.2

/-- The outcome of a rule that may not apply; then the reader stays where it is. -/
inductive MayYield (r : Reader) : Option Phrase × Reader → Prop
  | none : MayYield r (none, r)
  | found {phrase : Phrase} {behind : Reader} (h : r.Yields (phrase, behind)) :
      MayYield r (some phrase, behind)

/-- The outcome of a rule that goes on with a phrase. -/
abbrev Extends (r : Reader) (phrase : Phrase) (outcome : Phrase × Reader) : Prop :=
  phrase.Grows r outcome.1 outcome.2

variable {kinds : Kind → Bool} {r behind further : Reader} {phrase grown : Phrase}

theorem reads_begin {kind : Kind} (hkind : kinds kind = true) (h : (Phrase.begin kind r).Grows r phrase behind) :
    r.Reads kinds phrase behind := ⟨kind, r, hkind, .refl, h⟩

theorem Reads.reaches (h : r.Reads kinds phrase behind) : r.Reaches behind := by
  obtain ⟨_, _, _, hbegun, hgrows⟩ := h
  exact hbegun.trans hgrows.reaches

theorem Reads.grow (h : r.Reads kinds phrase behind) (hgrows : phrase.Grows behind grown further) :
    r.Reads kinds grown further := by
  obtain ⟨kind, begun, hkind, hbegun, hread⟩ := h
  exact ⟨kind, begun, hkind, hbegun, hread.trans hgrows⟩

theorem Reads.after (h : behind.Reads kinds phrase further) (hreach : r.Reaches behind) :
    r.Reads kinds phrase further := by
  obtain ⟨kind, begun, hkind, hbegun, hread⟩ := h
  exact ⟨kind, begun, hkind, hreach.trans hbegun, hread⟩

theorem Reads.built {places : Nat → Prop} (h : r.Reads kinds phrase behind)
    (hplaces : ∀ offset, r.Site offset → places offset) :
    phrase.Built (fun kind => kinds kind = true ∨ kind.isPart = true) places := by
  obtain ⟨kind, begun, hkind, hbegun, hread⟩ := h
  have hsites := fun offset hsite => hplaces offset (hbegun.site hsite)
  exact hread.built (.empty (.inl hkind) (hsites _ (.inr begun.ahead_offset))) hsites fun _ => .inr

theorem Reads.content {places : Nat → Prop} (h : r.Reads Kind.isContent phrase behind)
    (hplaces : ∀ offset, r.Site offset → places offset) : phrase.Content places :=
  (h.built hplaces).mono (fun _ hkind => hkind.elim id Kind.isContent_of_isPart) fun _ hplace => hplace

theorem Reads.parts_built (h : r.Reads kinds phrase behind) :
    ∀ part ∈ phrase.parts, part.Built (fun kind => kind.isPart = true) fun _ => True := by
  obtain ⟨_, _, _, _, hread⟩ := h
  exact hread.parts_built nofun

theorem Reads.start_le_stop (h : r.Reads kinds phrase behind) : phrase.start ≤ phrase.stop :=
  (h.built fun _ _ => trivial : phrase.Built _ fun _ => True).sound.here.ordered

theorem Reads.offset_le_start (h : r.Reads kinds phrase behind) : r.offset ≤ phrase.start := by
  obtain ⟨_, begun, _, hbegun, hread⟩ := h
  rw [hread.start_eq rfl]
  exact hbegun.offset_le

/-- A phrase that is recognised behind its first part is begun where the part was begun. -/
theorem Reads.around {kind : Kind} (h : r.Reads Kind.isPart phrase behind) (hkind : kinds kind = true) :
    r.Reads kinds (.around kind phrase.start [phrase]) behind := by
  obtain ⟨first, begun, hfirst, hbegun, hread⟩ := h
  refine ⟨kind, begun, hkind, hbegun, ?_⟩
  rw [hread.start_eq rfl, Phrase.around_eq_settled, Phrase.addAll_singleton]
  exact .settle (.add .refl hfirst hread)

theorem grows_flagWhole {kind : Kind} {rule : Rule} (h : (Phrase.begin kind r).Grows r phrase behind)
    (hrule : rule.IsError ∨ rule = .deprecatedModulo ∧ phrase.kind.isLeaf = true)
    (hleaf : phrase.kind.isLeaf = true → phrase.stop ≤ max behind.offset behind.lastEnd) :
    (Phrase.begin kind r).Grows r (phrase.flagWhole rule) behind := by
  have hreads : r.Reads (fun _ => true) phrase behind := reads_begin rfl h
  have hstop : phrase.start + phrase.length = phrase.stop := Nat.add_sub_cancel' hreads.start_le_stop
  refine .flag h ?_ ?_ hrule ?_
  · rw [h.start_eq rfl]
    exact r.ahead_offset
  · rw [hstop]
    exact h.site_stop (.inr r.ahead_offset)
  · rw [hstop]
    exact hleaf

theorem Reads.flagWhole {rule : Rule} (h : r.Reads kinds phrase behind)
    (hrule : rule.IsError ∨ rule = .deprecatedModulo ∧ phrase.kind.isLeaf = true)
    (hleaf : phrase.kind.isLeaf = true → phrase.stop ≤ max behind.offset behind.lastEnd) :
    r.Reads kinds (phrase.flagWhole rule) behind := by
  obtain ⟨kind, begun, hkind, hbegun, hread⟩ := h
  exact ⟨kind, begun, hkind, hbegun, grows_flagWhole hread hrule hleaf⟩

/-- What is begun before a lexeme and goes on behind it takes the lexeme. -/
theorem yields_begin {kind : Kind} (hkind : kind.isPart = true)
    (h : (Phrase.begin kind r).Grows r.next phrase behind) : r.Yields (phrase, behind) :=
  ⟨reads_begin hkind ((Phrase.Grows.skip .refl r.reaches_next).trans h), h.reaches⟩

theorem leaf_yields (r : Reader) (kind : Kind) (hkind : kind.isPart = true) : r.Yields (r.leaf kind) :=
  yields_begin hkind (.finish .refl)

theorem MayYield.reaches {outcome : Option Phrase × Reader} (h : r.MayYield outcome) :
    r.Reaches outcome.2 := by
  cases h with
  | none => exact .refl
  | found h => exact h.reads.reaches

theorem leafRun_reads (r : Reader) (kind : Kind) (hkind : kinds kind = true) :
    r.Reads kinds (r.leafRun kind).1 (r.leafRun kind).2 :=
  reads_begin hkind (.finish (.skip .refl r.reaches_nextRun))

/-- A leaf ends with what was taken. -/
theorem leaf_stop_le (r : Reader) (kind : Kind) :
    (r.leaf kind).1.stop ≤ max (r.leaf kind).2.offset (r.leaf kind).2.lastEnd := by
  have hle := r.reaches_next.offset_le
  show max r.offset r.next.lastEnd ≤ max r.next.offset r.next.lastEnd
  omega

end Reader

namespace Phrase

variable {phrase grown part : Phrase} {r behind further : Reader}

@[simp] theorem addOr_kind (phrase : Phrase) (part : Option Phrase) (rule : Rule) (r : Reader) :
    (phrase.addOr part rule r).kind = phrase.kind := by
  cases part <;> rfl

@[simp] theorem close_kind (phrase : Phrase) (kind : TokenKind) (rule : Rule) (r : Reader) :
    (phrase.close kind rule r).2.1.kind = phrase.kind := by
  unfold close
  split <;> rfl

@[simp] theorem addOr_before (phrase : Phrase) (part : Option Phrase) (rule : Rule) (r : Reader) :
    (phrase.addOr part rule r).before = phrase.before := by
  cases part <;> rfl

@[simp] theorem addOr_after (phrase : Phrase) (part : Option Phrase) (rule : Rule) (r : Reader) :
    (phrase.addOr part rule r).after = phrase.after ++ part.toList := by
  cases part <;> simp [addOr, complain, flag, add, grow]

@[simp] theorem addOr_parts (phrase : Phrase) (part : Option Phrase) (rule : Rule) (r : Reader) :
    (phrase.addOr part rule r).parts = phrase.parts ++ part.toList := by
  rw [parts, addOr_before, addOr_after, ← List.append_assoc, parts]

@[simp] theorem close_before (phrase : Phrase) (kind : TokenKind) (rule : Rule) (r : Reader) :
    (phrase.close kind rule r).2.1.before = phrase.before := by
  unfold close
  split <;> rfl

@[simp] theorem close_after (phrase : Phrase) (kind : TokenKind) (rule : Rule) (r : Reader) :
    (phrase.close kind rule r).2.1.after = phrase.after := by
  unfold close
  split <;> rfl

@[simp] theorem close_parts (phrase : Phrase) (kind : TokenKind) (rule : Rule) (r : Reader) :
    (phrase.close kind rule r).2.1.parts = phrase.parts := by
  rw [parts, close_before, close_after, parts]

theorem Grows.read (h : phrase.Grows r grown behind) (hpart : behind.Reads Kind.isPart part further) :
    phrase.Grows r (grown.add part) further := by
  obtain ⟨kind, begun, hkind, hbegun, hread⟩ := hpart
  exact .add (.skip h hbegun) hkind hread

theorem Grows.complain (h : phrase.Grows r grown behind) {rule : Rule} (hrule : rule.IsError)
    (hleaf : grown.kind.isLeaf = false) : phrase.Grows r (grown.complain rule behind) behind := by
  refine .flag h (h.reaches.ahead behind.ahead_offset) (.inr (h.reaches.ahead behind.ahead_textEnd))
    (.inl hrule) ?_
  rw [hleaf]
  exact nofun

theorem Grows.complainAtEnd (h : phrase.Grows r grown behind) {rule : Rule} (hrule : rule.IsError) (hend : behind.rest = []) :
    phrase.Grows r (grown.complain rule behind) behind := by
  have htext : behind.text = [] := by
    unfold Reader.text
    rw [Option.map_eq_none_iff.mp (Reader.kind?_eq_none_iff.mpr hend)]
    rfl
  refine .flag h (h.reaches.ahead behind.ahead_offset) (.inr (h.reaches.ahead behind.ahead_textEnd))
    (.inl hrule) ?_
  intro _
  rw [htext]
  exact Nat.le_max_left _ _

theorem Grows.addOr {outcome : Option Phrase × Reader} (h : phrase.Grows r grown behind)
    (hpart : behind.MayYield outcome) {rule : Rule} (hrule : rule.IsError) (hleaf : grown.kind.isLeaf = false) :
    phrase.Grows r (grown.addOr outcome.1 rule outcome.2) outcome.2 := by
  cases hpart with
  | none => exact h.complain hrule hleaf
  | found hpart => exact h.read hpart.reads

/-- A closing sign is taken, or the rest of the line is. -/
theorem Grows.close (h : phrase.Grows r grown behind) (kind : TokenKind) {rule : Rule} (hrule : rule.IsError) :
    phrase.Grows r (grown.close kind rule behind).2.1 (grown.close kind rule behind).2.2 := by
  have hreach := behind.reaches_accept kind
  unfold Phrase.close
  split
  · rename_i haccept
    rw [haccept] at hreach
    exact .skip h hreach
  · rename_i haccept
    rw [haccept] at hreach
    exact (Grows.skip h (hreach.trans (Reader.reaches_skipLine _))).complainAtEnd hrule (Reader.skipLine_rest _)

theorem site_between {start stop : Nat} (hstart : r.Site start) (hstop : r.Site stop) :
    r.Site (start + (stop - start)) := by
  rcases Nat.le_total start stop with hle | hle
  · rw [Nat.add_sub_cancel' hle]
    exact hstop
  · rw [Nat.sub_eq_zero_of_le hle]
    exact hstart

theorem finishLine_extends (phrase : Phrase) (r : Reader) : r.Extends phrase (phrase.finishLine r) := by
  have hskip := r.reaches_skipLine
  have hle := hskip.offset_le
  unfold finishLine
  split
  · exact .finish .refl
  · refine .finish (.flag (.skip .refl hskip) r.ahead_offset ?_ (.inl rfl) ?_)
    · exact site_between (.inr r.ahead_offset) hskip.site_lastEnd
    · omega

theorem markRest_extends (phrase : Phrase) {rule : Rule} (hrule : rule.IsError) (r : Reader) :
    r.Extends phrase (phrase.markRest rule r) := by
  have hle : r.offset + Text.bytes r.text ≤ r.skipLine.offset := Reader.textEnd_le_skipTo fun _ _ => rfl
  refine .finish (.flag (.skip .refl r.reaches_skipLine) r.ahead_offset (.inr r.ahead_textEnd) (.inl hrule) ?_)
  exact fun _ => Nat.le_trans hle (Nat.le_max_left _ _)

end Phrase

/-- An issue over a whole phrase is where the phrase is. -/
theorem Phrase.Built.flagWhole {kinds : Kind → Prop} {places : Nat → Prop} {phrase : Phrase} {rule : Rule}
    (hphrase : phrase.Built kinds places) : (phrase.flagWhole rule).Built kinds places := by
  have hsound := hphrase.sound.here
  refine .flag hphrase hsound.start ?_
  rw [Phrase.length, Nat.add_sub_cancel' hsound.ordered]
  exact hsound.stop

end Gamebook
