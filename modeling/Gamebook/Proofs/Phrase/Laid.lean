import Gamebook.Proofs.Grammar.Statement
import Gamebook.Proofs.Phrase.Alike
import Gamebook.Proofs.Phrase.Shape

/-!
How phrases are laid out. Names stand alone and are never empty, a label stands in its declaration, where
there is no other one, or in a reference, and what opens a scope or declares something is a whole statement,
with one exception: the modifiers of an option. Neighbours in which scopes are opened or names declared do
not overlap, again with the exception of modifiers, where an error in one of them may stretch it over the
asterisk of the next.
-/

namespace Gamebook

namespace Kind

def isName : Kind → Bool
  | .var | .label | .sceneRef => true
  | _ => false

/-- The kinds of what stands inside a statement, apart from labels and from the modifiers of an option. -/
def isInner : Kind → Bool
  | .standardCommand _ | .label => false
  | kind => kind.isPart

def isModifier : Kind → Bool
  | .standardCommand name => Command.isOptionModifier name
  | _ => false

def opensScope : Kind → Bool
  | .choiceOption _ _ => true
  | .standardCommand name => Command.isConditional name
  | _ => false

def declares : Kind → Bool
  | .variableDeclaration _ | .labelDeclaration => true
  | .standardCommand name => name == "params"
  | _ => false

def isScoped (kind : Kind) : Bool := kind.opensScope || kind.declares

/-- Whether a phrase of one kind can be a part of a phrase of another kind. -/
def admits (outer inner : Kind) : Bool :=
  match outer with
  | .scene _ _ | .line _ _ _ => true
  | .var | .label | .sceneRef => false
  | .labelDeclaration => inner == .label
  | .labelRef => inner.isName
  | .choiceOption _ _ => inner.isInner || inner.isModifier || !inner.isContent
  | _ => inner.isInner || (outer.opensBlock && !inner.isContent)

/-- The kinds of phrases that can have parts of all inner kinds. -/
def isHolder : Kind → Bool
  | .var | .label | .sceneRef | .labelDeclaration | .labelRef => false
  | _ => true

theorem admits_of_isInner {outer inner : Kind} (houter : outer.isHolder = true) (hinner : inner.isInner = true) :
    outer.admits inner = true := by
  cases outer <;> simp_all [admits, isHolder]

theorem ne_labelDeclaration {kind : Kind} (h : kind.isHolder = true) : kind ≠ .labelDeclaration := by
  rintro rfl
  cases h

/-- The lines of a block stand in the statement that opens it. -/
theorem admits_of_opensBlock {outer inner : Kind} (houter : outer.opensBlock = true)
    (hinner : inner.isContent = false) : outer.admits inner = true := by
  cases outer <;> simp_all [admits, opensBlock]

theorem isInner_or_isName_of_admits {outer inner : Kind} (houter : outer.isInner = true)
    (h : outer.admits inner = true) : inner.isInner = true ∨ inner.isName = true := by
  cases outer <;> simp_all [admits, isInner, isPart, opensBlock]

theorem isScoped_of_isInner {kind : Kind} (h : kind.isInner = true) : kind.isScoped = false := by
  cases kind <;> first | rfl | cases h

theorem isScoped_of_isName {kind : Kind} (h : kind.isName = true) : kind.isScoped = false := by
  cases kind <;> first | rfl | cases h

/-- What stands in a declaration is a name or stands inside statements. -/
theorem isInner_or_isName_of_declares {outer inner : Kind} (houter : outer.declares = true)
    (h : outer.admits inner = true) : inner.isInner = true ∨ inner.isName = true := by
  cases outer with
  | variableDeclaration _ => exact .inl (by simpa [admits, opensBlock] using h)
  | labelDeclaration =>
      obtain rfl := beq_iff_eq.mp h
      exact .inr rfl
  | standardCommand name =>
      obtain rfl := beq_iff_eq.mp houter
      have hblock : (standardCommand "params").opensBlock = false := by decide
      exact .inl (by simpa [admits, hblock] using h)
  | _ => cases houter

/-- No modifier declares anything. -/
theorem isModifier_of_declares {kind : Kind} (h : kind.declares = true) : kind.isModifier = false := by
  cases kind with
  | standardCommand name =>
      obtain rfl := beq_iff_eq.mp h
      decide
  | _ => rfl

theorem admits_of_isName {outer inner : Kind} (h : outer.isName = true) : outer.admits inner = false := by
  cases outer <;> first | rfl | cases h

end Kind

namespace Phrase

/-- Nothing in the phrase matters to scopes. -/
def Plain : Phrase → Prop := Everywhere fun inner => inner.kind.isScoped = false

/-- Modifiers of an option that follow each other. When an error is in the first one it may reach over
the asterisk of the second. -/
structure Successive (left right : Phrase) : Prop where
  kinds : left.kind.isModifier = true ∧ right.kind.isModifier = true
  plain : (∀ part ∈ left.parts, part.Plain) ∧ ∀ part ∈ right.parts, part.Plain
  start : left.start ≤ right.start
  stop : left.stop ≤ right.start + 1
  behind : right.start + 1 < right.stop
  clean : left.Clean → left.stop ≤ right.start

/-- Neighbours in a phrase of the given kind do not overlap where they matter to scopes. -/
inductive Apart (outer : Kind) (left right : Phrase) : Prop
  | behind (h : left.stop ≤ right.start)
  | left (h : left.Plain)
  | right (h : right.Plain)
  | modifiers {reuse : Option Reuse} {conditional : Bool} (houter : outer = .choiceOption reuse conditional)
      (h : left.Successive right)

/-- What a phrase is and has fits. -/
structure Fits (phrase : Phrase) : Prop where
  ordered : phrase.start ≤ phrase.stop
  admits : ∀ part ∈ phrase.parts, phrase.kind.admits part.kind = true
  filled : phrase.kind.isName = true ∨ phrase.kind.isScoped = true → phrase.start < phrase.stop
  apart : phrase.parts.Pairwise (Apart phrase.kind)
  single : phrase.kind = .labelDeclaration → phrase.parts.length ≤ 1

def Laid : Phrase → Prop := Everywhere Fits

variable {phrase grown part : Phrase}

theorem laid_iff : phrase.Laid ↔ phrase.Fits ∧ ∀ part ∈ phrase.parts, part.Laid := everywhere_iff

theorem Laid.fits (h : phrase.Laid) : phrase.Fits := Everywhere.here h

/-- A name has no parts. -/
theorem Fits.parts_eq_nil (h : phrase.Fits) (hname : phrase.kind.isName = true) : phrase.parts = [] := by
  refine List.eq_nil_iff_forall_not_mem.mpr fun part hpart => ?_
  have hadmits := h.admits part hpart
  rw [Kind.admits_of_isName hname] at hadmits
  cases hadmits

theorem Laid.plain_of_isName (h : phrase.Laid) (hname : phrase.kind.isName = true) : phrase.Plain := by
  refine .intro (Kind.isScoped_of_isName hname) ?_
  rw [h.fits.parts_eq_nil hname]
  exact nofun

/-- What stands inside a statement does not matter to scopes. -/
theorem Laid.plain (h : phrase.Laid) (hinner : phrase.kind.isInner = true) : phrase.Plain := by
  induction h with
  | @intro phrase here below ih =>
      refine .intro (Kind.isScoped_of_isInner hinner) fun part hpart => ?_
      rcases Kind.isInner_or_isName_of_admits hinner (here.admits part hpart) with hkind | hname
      · exact ih part hpart hkind
      · exact Laid.plain_of_isName (below part hpart) hname

/-! ### Growing -/

/-- What only extends the range of a phrase or adds issues leaves it laid out well. -/
theorem Laid.extend (h : phrase.Laid) (hkind : grown.kind = phrase.kind) (hparts : grown.parts = phrase.parts)
    (hstart : grown.start ≤ phrase.start) (hstop : phrase.stop ≤ grown.stop) : grown.Laid := by
  obtain ⟨hfits, hinner⟩ := laid_iff.mp h
  refine laid_iff.mpr ⟨⟨?_, ?_, ?_, ?_, ?_⟩, by rwa [hparts]⟩
  · exact Nat.le_trans hstart (Nat.le_trans hfits.ordered hstop)
  · rw [hkind, hparts]
    exact hfits.admits
  · rw [hkind]
    exact fun hmatters => Nat.lt_of_le_of_lt hstart (Nat.lt_of_lt_of_le (hfits.filled hmatters) hstop)
  · rw [hkind, hparts]
    exact hfits.apart
  · rw [hkind, hparts]
    exact hfits.single

theorem Laid.flag (h : phrase.Laid) (rule : Rule) (offset length : Nat) : (phrase.flag rule offset length).Laid :=
  h.extend rfl rfl (Nat.min_le_left _ _) (Nat.le_max_left _ _)

theorem Laid.flagWhole (h : phrase.Laid) (rule : Rule) : (phrase.flagWhole rule).Laid := h.flag _ _ _

theorem Laid.complain (h : phrase.Laid) (rule : Rule) (r : Reader) : (phrase.complain rule r).Laid := h.flag _ _ _

theorem Laid.reach (h : phrase.Laid) (stop : Nat) : (phrase.reach stop).Laid :=
  h.extend rfl rfl (Nat.le_of_eq (reach_start _ _)) (Nat.le_max_left _ _)

theorem Laid.finish (h : phrase.Laid) (r : Reader) : (phrase.finish r).Laid := h.reach _

theorem Laid.settled (h : phrase.Laid) : phrase.settled.Laid :=
  h.extend rfl (settled_parts phrase) (Nat.le_refl _) (Nat.le_refl _)

theorem laid_empty {kind : Kind} (hname : kind.isName = false) (hscoped : kind.isScoped = false) (offset : Nat) :
    (empty kind offset).Laid := by
  refine laid_iff.mpr ⟨⟨Nat.le_refl _, nofun, ?_, .nil, fun _ => Nat.zero_le 1⟩, nofun⟩
  rintro (h | h)
  · exact absurd (hname.symm.trans h) Bool.false_ne_true
  · exact absurd (hscoped.symm.trans h) Bool.false_ne_true

/-- A phrase without parts that is not empty is laid out well, whatever its kind. -/
theorem laid_of_filled (hparts : phrase.parts = []) (hfilled : phrase.start < phrase.stop) : phrase.Laid := by
  refine laid_iff.mpr ⟨⟨Nat.le_of_lt hfilled, ?_, fun _ => hfilled, ?_, ?_⟩, ?_⟩ <;> rw [hparts]
  · exact nofun
  · exact .nil
  · exact fun _ => Nat.zero_le 1
  · exact nofun

theorem laid_reach {kind : Kind} {start stop : Nat} (hfilled : start < stop) :
    ((empty kind start).reach stop).Laid := by
  refine laid_of_filled rfl ?_
  rw [reach_start, reach_stop]
  exact Nat.lt_of_lt_of_le hfilled (Nat.le_max_right _ _)

theorem Laid.add (h : phrase.Laid) (hpart : part.Laid) (hadmits : phrase.kind.admits part.kind = true)
    (hapart : ∀ left ∈ phrase.parts, Apart phrase.kind left part)
    (hsingle : phrase.kind = .labelDeclaration → phrase.parts = []) : (phrase.add part).Laid := by
  obtain ⟨hfits, hinner⟩ := laid_iff.mp h
  have hstart : (phrase.add part).start ≤ phrase.start := Nat.min_le_left _ _
  have hstop : phrase.stop ≤ (phrase.add part).stop := Nat.le_max_left _ _
  refine laid_iff.mpr ⟨⟨?_, ?_, ?_, ?_, ?_⟩, ?_⟩
  · exact Nat.le_trans hstart (Nat.le_trans hfits.ordered hstop)
  · rw [add_parts]
    exact List.forall_mem_append.mpr ⟨hfits.admits, List.forall_mem_singleton.mpr hadmits⟩
  · exact fun hmatters => Nat.lt_of_le_of_lt hstart (Nat.lt_of_lt_of_le (hfits.filled hmatters) hstop)
  · rw [add_parts]
    refine List.pairwise_append.mpr ⟨hfits.apart, List.pairwise_singleton _ _, fun left hleft right hright => ?_⟩
    rw [List.mem_singleton.mp hright]
    exact hapart left hleft
  · intro hkind
    rw [add_parts, hsingle hkind]
    exact Nat.le_refl 1
  · rw [add_parts]
    exact List.forall_mem_append.mpr ⟨hinner, List.forall_mem_singleton.mpr hpart⟩

theorem Laid.addAll {parts : List Phrase} (h : phrase.Laid)
    (hparts : ∀ part ∈ parts, part.Laid ∧ phrase.kind.admits part.kind = true)
    (hbetween : ∀ left ∈ phrase.parts, ∀ right ∈ parts, Apart phrase.kind left right)
    (hpairs : parts.Pairwise (Apart phrase.kind)) (hkind : parts ≠ [] → phrase.kind ≠ .labelDeclaration) :
    (phrase.addAll parts).Laid := by
  induction parts generalizing phrase with
  | nil => rwa [addAll_nil]
  | cons part more ih =>
      obtain ⟨hpart, hmore⟩ := List.forall_mem_cons.mp hparts
      obtain ⟨hfirst, hrest⟩ := List.pairwise_cons.mp hpairs
      have hother : phrase.kind ≠ .labelDeclaration := hkind (List.cons_ne_nil _ _)
      rw [addAll_cons]
      refine ih (h.add hpart.1 hpart.2 (fun left hleft => hbetween left hleft part List.mem_cons_self)
        fun hsame => absurd hsame hother) hmore ?_ hrest fun _ => hother
      rw [add_parts]
      exact List.forall_mem_append.mpr
        ⟨fun left hleft right hright => hbetween left hleft right (List.mem_cons_of_mem _ hright),
          List.forall_mem_singleton.mpr hfirst⟩

/-- A phrase that can be added to a statement. -/
structure Inner (part : Phrase) : Prop where
  laid : part.Laid
  kind : part.kind.isInner = true

theorem Inner.plain (h : part.Inner) : part.Plain := h.laid.plain h.kind

theorem Laid.addInner (h : phrase.Laid) (hholder : phrase.kind.isHolder = true) (hpart : part.Inner) :
    (phrase.add part).Laid :=
  h.add hpart.laid (Kind.admits_of_isInner hholder hpart.kind) (fun _ _ => .right hpart.plain)
    fun hkind => absurd hkind (Kind.ne_labelDeclaration hholder)

/-- What a phrase becomes when inner parts are added, issues raised and its range extended. -/
structure Enlarges (phrase grown : Phrase) : Prop where
  kind : grown.kind = phrase.kind
  start : grown.start ≤ phrase.start
  stop : phrase.stop ≤ grown.stop
  parts : ∃ more, grown.parts = phrase.parts ++ more ∧ ∀ part ∈ more, part.Inner

theorem Enlarges.refl (phrase : Phrase) : phrase.Enlarges phrase :=
  ⟨rfl, Nat.le_refl _, Nat.le_refl _, [], (List.append_nil _).symm, nofun⟩

theorem Enlarges.trans {more : Phrase} (hfirst : phrase.Enlarges grown) (hsecond : grown.Enlarges more) :
    phrase.Enlarges more := by
  obtain ⟨added, hadded, hinner⟩ := hfirst.parts
  obtain ⟨added', hadded', hinner'⟩ := hsecond.parts
  refine ⟨hsecond.kind.trans hfirst.kind, Nat.le_trans hsecond.start hfirst.start,
    Nat.le_trans hfirst.stop hsecond.stop, added ++ added', ?_, List.forall_mem_append.mpr ⟨hinner, hinner'⟩⟩
  rw [hadded', hadded, List.append_assoc]

theorem enlarges_flag (phrase : Phrase) (rule : Rule) (offset length : Nat) :
    phrase.Enlarges (phrase.flag rule offset length) :=
  ⟨rfl, Nat.min_le_left _ _, Nat.le_max_left _ _, [], (List.append_nil _).symm, nofun⟩

theorem enlarges_reach (phrase : Phrase) (stop : Nat) : phrase.Enlarges (phrase.reach stop) :=
  ⟨rfl, Nat.le_of_eq (reach_start _ _), Nat.le_max_left _ _, [], (List.append_nil _).symm, nofun⟩

theorem enlarges_complain (phrase : Phrase) (rule : Rule) (r : Reader) :
    phrase.Enlarges (phrase.complain rule r) := enlarges_flag _ _ _ _

theorem enlarges_finish (phrase : Phrase) (r : Reader) : phrase.Enlarges (phrase.finish r) := enlarges_reach _ _

theorem Inner.enlarges (h : part.Inner) (phrase : Phrase) : phrase.Enlarges (phrase.add part) :=
  ⟨rfl, Nat.min_le_left _ _, Nat.le_max_left _ _, [part], add_parts _ _, List.forall_mem_singleton.mpr h⟩

/-- A phrase that is enlarged and not empty in the end is laid out well if its first parts are. -/
theorem Enlarges.laid_of_filled (h : phrase.Enlarges grown) (hholder : phrase.kind.isHolder = true)
    (hparts : ∀ part ∈ phrase.parts, part.Laid ∧ phrase.kind.admits part.kind = true)
    (hapart : phrase.parts.Pairwise (Apart phrase.kind)) (hordered : grown.start ≤ grown.stop)
    (hfilled : phrase.kind.isName = true ∨ phrase.kind.isScoped = true → grown.start < grown.stop) :
    grown.Laid := by
  obtain ⟨more, hmore, hinner⟩ := h.parts
  refine laid_iff.mpr ⟨⟨hordered, ?_, ?_, ?_, ?_⟩, ?_⟩
  · rw [hmore, h.kind]
    exact List.forall_mem_append.mpr ⟨fun part hpart => (hparts part hpart).2,
      fun part hpart => Kind.admits_of_isInner hholder (hinner part hpart).kind⟩
  · rwa [h.kind]
  · rw [hmore, h.kind]
    refine List.pairwise_append.mpr ⟨hapart, ?_, fun _ _ right hright => .right (hinner right hright).plain⟩
    exact List.pairwise_of_forall_mem_list fun left hleft _ _ => .left (hinner left hleft).plain
  · rw [h.kind]
    exact fun hkind => absurd hkind (Kind.ne_labelDeclaration hholder)
  · rw [hmore]
    exact List.forall_mem_append.mpr
      ⟨fun part hpart => (hparts part hpart).1, fun part hpart => (hinner part hpart).laid⟩

theorem Enlarges.laid (h : phrase.Enlarges grown) (hphrase : phrase.Laid) (hholder : phrase.kind.isHolder = true) :
    grown.Laid := by
  obtain ⟨hfits, hparts⟩ := laid_iff.mp hphrase
  refine h.laid_of_filled hholder (fun part hpart => ⟨hparts part hpart, hfits.admits part hpart⟩) hfits.apart ?_ ?_
  · exact Nat.le_trans h.start (Nat.le_trans hfits.ordered h.stop)
  · exact fun hmatters => Nat.lt_of_le_of_lt h.start (Nat.lt_of_lt_of_le (hfits.filled hmatters) h.stop)

/-! ### Moving a phrase -/

theorem Plain.shift (h : phrase.Plain) (distance : Nat) : (phrase.shift distance).Plain :=
  Everywhere.shift h fun inner hinner => by rwa [shift_kind]

/-- An error in a phrase moves along with it. -/
theorem Laid.clean_of_shift (h : phrase.Laid) {distance : Nat} (hclean : (phrase.shift distance).Clean) :
    phrase.Clean := by
  induction h with
  | @intro phrase _ _ ih =>
      obtain ⟨hissues, hparts⟩ := (clean_iff _).mp hclean
      rw [shift_parts, List.forall_mem_map] at hparts
      refine (clean_iff _).mpr ⟨fun issue hissue => ?_, fun part hpart => ih part hpart (hparts part hpart)⟩
      refine hissues (issue.shift distance) ?_
      rw [shift_issues]
      exact List.mem_map_of_mem hissue

theorem Successive.shift {left right : Phrase} (h : left.Successive right) (hleft : left.Laid) (distance : Nat) :
    (left.shift distance).Successive (right.shift distance) := by
  refine ⟨by simpa using h.kinds, ?_, ?_, ?_, ?_, ?_⟩
  · rw [shift_parts, shift_parts, List.forall_mem_map, List.forall_mem_map]
    exact ⟨fun part hpart => (h.plain.1 part hpart).shift distance, fun part hpart => (h.plain.2 part hpart).shift distance⟩
  · rw [shift_start, shift_start]
    exact Nat.add_le_add_right h.start distance
  · rw [shift_start, shift_stop]
    have := h.stop
    omega
  · rw [shift_start, shift_stop]
    have := h.behind
    omega
  · intro hclean
    rw [shift_start, shift_stop]
    exact Nat.add_le_add_right (h.clean (hleft.clean_of_shift hclean)) distance

theorem Apart.shift {outer : Kind} {left right : Phrase} (h : Apart outer left right) (hleft : left.Laid)
    (distance : Nat) : Apart outer (left.shift distance) (right.shift distance) := by
  cases h with
  | behind h =>
      refine .behind ?_
      rw [shift_start, shift_stop]
      exact Nat.add_le_add_right h distance
  | left h => exact .left (h.shift distance)
  | right h => exact .right (h.shift distance)
  | modifiers houter h => exact .modifiers houter (h.shift hleft distance)

theorem Laid.shift (h : phrase.Laid) (distance : Nat) : (phrase.shift distance).Laid := by
  induction h with
  | @intro phrase here below ih =>
      refine laid_iff.mpr ⟨⟨?_, ?_, ?_, ?_, ?_⟩, ?_⟩
      · rw [shift_start, shift_stop]
        exact Nat.add_le_add_right here.ordered distance
      · rw [shift_parts, List.forall_mem_map]
        intro part hpart
        rw [shift_kind, shift_kind]
        exact here.admits part hpart
      · rw [shift_kind, shift_start, shift_stop]
        exact fun hmatters => Nat.add_lt_add_right (here.filled hmatters) distance
      · rw [shift_parts, shift_kind, List.pairwise_map]
        exact here.apart.imp_of_mem fun hleft _ hapart => hapart.shift (below _ hleft) distance
      · rw [shift_kind, shift_parts, List.length_map]
        exact here.single
      · rw [shift_parts, List.forall_mem_map]
        exact ih

end Phrase

end Gamebook
