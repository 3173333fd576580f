import Gamebook.Proofs.Grammar.Laid
import Gamebook.Proofs.Scene.Replace

/-!
Every scene is laid out well. Lines never overlap, whatever is marked on them: what stands on a line ends
with the line, and so does its block with the last line in it.
-/

namespace Gamebook

namespace Line

variable {source : Text} {line : Line} {context : Context} {unit : Option IndentUnit} {limit : Nat}
  {block : List Phrase} {statement : Statement}

/-! ### Where lines end -/

theorem stated_stop_le (hwithin : line.Within source) (hfound : (line.reading context).1 = some statement)
    (hbelow : ∀ part ∈ block, line.stop ≤ part.start) (hlimit : line.stop ≤ limit)
    (hblock : ∀ part ∈ block, part.stop ≤ limit) : (line.stated block statement).stop ≤ limit := by
  have hwhole : (line.withBlock block statement).stop ≤ limit := by
    refine Phrase.addAll_stop_le ?_ hblock
    rw [Phrase.shift_stop]
    exact Nat.le_trans (reading_content hwithin hfound).sound.here.stop.le_stop hlimit
  rcases line.stated_eq block statement with heq | ⟨fake, hkind, heq⟩
  · rw [heq]
    exact hwhole
  · have hheader := (place_of_site ((reading_states hwithin hfound).header fake hkind)).le_stop
    rw [heq]
    refine Nat.max_le.mpr ⟨hwhole, ?_⟩
    show _ + _ ≤ limit
    rw [withBlock_start hwithin hfound hbelow, Nat.add_right_comm]
    exact Nat.le_trans hheader hlimit

theorem phrase_stop_le (hwithin : line.Within source) (hbelow : ∀ part ∈ block, line.stop ≤ part.start)
    (hlimit : line.stop ≤ limit) (hblock : ∀ part ∈ block, part.stop ≤ limit) :
    (line.phrase unit (line.reading context) block).stop ≤ limit := by
  have hlast := (place_of_site (reaches_reading context hwithin).site_lastEnd).le_stop
  have hcontent : line.contentStart ≤ limit := by
    refine Nat.le_trans ?_ hlimit
    rw [stop, contentEnd, Nat.add_assoc]
    exact Nat.le_add_right _ _
  rw [phrase_eq (reading_rest hwithin)]
  refine Phrase.addAll_stop_le (Nat.max_le.mpr ⟨Phrase.addAll_stop_le ?_ ?_, Nat.le_trans hlast hlimit⟩) ?_
  · exact Nat.le_trans (Nat.le_add_right _ _) hcontent
  · exact fun part hpart => (margin_stop hpart).trans_le hcontent
  · intro part hpart
    obtain ⟨statement, hfound, rfl⟩ := Option.map_eq_some_iff.mp (Option.mem_toList.mp hpart)
    exact stated_stop_le hwithin hfound hbelow hlimit hblock

theorem phrases_stop_le (context : Context) {lines : List Line} (harranged : Arranged source lines)
    (hlimit : ∀ line ∈ lines, line.stop ≤ limit) : ∀ part ∈ phrases unit context lines, part.stop ≤ limit := by
  induction context, lines using below_induction with
  | nil context =>
      intro part hpart
      rw [phrases] at hpart
      cases hpart
  | cons context line more ihblock ihrest =>
      have hblock := block_sublist context line more
      have hrest := rest_sublist context line more
      rw [phrases_cons]
      refine List.forall_mem_cons.mpr ⟨?_, ?_⟩
      · exact phrase_stop_le (harranged.within line List.mem_cons_self)
          (harranged.block_below (phrases_starts _ (harranged.sublist hblock))) (hlimit line List.mem_cons_self)
          (ihblock (harranged.sublist hblock) fun lower hlower => hlimit lower (hblock.subset hlower))
      · exact ihrest (harranged.sublist hrest) fun lower hlower => hlimit lower (hrest.subset hlower)

/-- No line ends behind the start of a later one, with all that is in its block. -/
theorem phrases_behind (context : Context) {lines : List Line} (harranged : Arranged source lines) :
    (phrases unit context lines).Pairwise fun left right => left.stop ≤ right.start := by
  induction context, lines using below_induction with
  | nil context =>
      rw [phrases]
      exact .nil
  | cons context line more _ ihrest =>
      have hblock := harranged.sublist (block_sublist context line more)
      have hrest := harranged.sublist (rest_sublist context line more)
      rw [phrases_cons]
      refine .cons (fun right hright => ?_) (ihrest hrest)
      obtain ⟨lower, hlower, hstart⟩ := phrases_starts context hrest right hright
      obtain ⟨hupper, hsorted⟩ := List.pairwise_cons.mp harranged.sorted
      rw [← below_append context line more] at hupper hsorted
      have hbetween := (List.pairwise_append.mp hsorted).2.2
      rw [hstart]
      exact phrase_stop_le (harranged.within line List.mem_cons_self)
        (harranged.block_below (phrases_starts _ hblock)) (hupper lower (List.mem_append_right _ hlower))
        (phrases_stop_le _ hblock fun inner hinner => hbetween inner hinner lower hlower)

/-! ### What lines hold -/

theorem margin_laid {part : Phrase} (hpart : part ∈ line.margin unit) : part.Laid ∧ part.Plain := by
  obtain ⟨indentation, hfound, rfl⟩ := Option.map_eq_some_iff.mp (Option.mem_toList.mp hpart)
  have hown : indentation.Laid ∧ indentation.Plain := by
    simp only [indentation?] at hfound
    split at hfound
    · cases hfound
      have hempty : (Phrase.empty (.indentation line.width (.ofRun line.indent)) 0).Laid := Phrase.laid_empty rfl rfl 0
      have hlaid := hempty.reach (Text.bytes line.indent)
      split
      · exact ⟨hlaid, .intro rfl (List.forall_mem_nil _)⟩
      · exact ⟨hlaid.flagWhole _, .intro rfl (List.forall_mem_nil _)⟩
    · cases hfound
  exact ⟨hown.1.shift _, hown.2.shift _⟩

theorem stated_laid (hwithin : line.Within source) (hfound : (line.reading context).1 = some statement)
    (hopens : block ≠ [] → statement.phrase.kind.opensBlock = true)
    (hblock : ∀ part ∈ block, part.Laid ∧ part.kind.isContent = false)
    (hbelow : ∀ part ∈ block, line.stop ≤ part.start)
    (hpairs : block.Pairwise fun left right => left.stop ≤ right.start) : (line.stated block statement).Laid := by
  have hstatement : (statement.phrase.shift line.start).Laid :=
    (Reader.statement_laid context line.type (Nat.le_refl _) hwithin.trimmed_ofLine hfound).shift _
  have hsound := (reading_content hwithin hfound).sound
  have hwhole : (line.withBlock block statement).Laid := by
    refine hstatement.addAll (fun part hpart => ⟨(hblock part hpart).1, ?_⟩) ?_ (hpairs.imp .behind) ?_
    · rw [Phrase.shift_kind]
      exact Kind.admits_of_opensBlock (hopens (List.ne_nil_of_mem hpart)) (hblock part hpart).2
    · intro left hleft right hright
      rw [Phrase.shift_parts] at hleft
      obtain ⟨own, hown, rfl⟩ := List.mem_map.mp hleft
      refine .behind (Nat.le_trans ?_ (hbelow right hright))
      rw [Phrase.shift_stop]
      exact Nat.le_trans (Nat.add_le_add_right (hsound.here.parts own hown).2 _) hsound.here.stop.le_stop
    · intro hne hkind
      have hopened := hopens hne
      rw [← Phrase.shift_kind, hkind] at hopened
      cases hopened
  rcases line.stated_eq block statement with heq | ⟨_, _, heq⟩ <;> rw [heq]
  · exact hwhole
  · exact hwhole.flag _ _ _

theorem phrase_laid (hwithin : line.Within source)
    (hopens : block ≠ [] → ∀ statement, (line.reading context).1 = some statement →
      statement.phrase.kind.opensBlock = true)
    (hblock : ∀ part ∈ block, part.Laid ∧ part.kind.isContent = false)
    (hbelow : ∀ part ∈ block, line.stop ≤ part.start)
    (hpairs : block.Pairwise fun left right => left.stop ≤ right.start) :
    (line.phrase unit (line.reading context) block).Laid := by
  have hmargin : ∀ part ∈ line.margin unit, part.Laid ∧ part.Plain := fun _ => margin_laid
  have hline : (Phrase.empty (.line line.number line.width line.type) line.start).Laid := Phrase.laid_empty rfl rfl _
  rw [phrase_eq (reading_rest hwithin)]
  refine Phrase.Laid.addAll ((hline.addAll (fun part hpart => ⟨(hmargin part hpart).1, rfl⟩) nofun ?_ nofun).reach _)
    ?_ ?_ ?_ nofun
  · exact List.pairwise_of_forall_mem_list fun left hleft _ _ => .left (hmargin left hleft).2
  · intro part hpart
    obtain ⟨statement, hfound, rfl⟩ := Option.map_eq_some_iff.mp (Option.mem_toList.mp hpart)
    exact ⟨stated_laid hwithin hfound (fun hne => hopens hne statement hfound) hblock hbelow hpairs, rfl⟩
  · intro left hleft _ _
    have hparts : ((Phrase.empty (.line line.number line.width line.type) line.start).addAll
        (line.margin unit)).parts = line.margin unit := by rw [Phrase.addAll_parts]; rfl
    exact .left (hmargin left (hparts ▸ hleft)).2
  · cases (line.reading context).1 with
    | none => exact .nil
    | some statement => exact List.pairwise_singleton _ _

theorem phrases_laid (context : Context) {lines : List Line} (harranged : Arranged source lines) :
    ∀ part ∈ phrases unit context lines, part.Laid ∧ part.kind.isContent = false := by
  induction context, lines using below_induction with
  | nil context =>
      intro part hpart
      rw [phrases] at hpart
      cases hpart
  | cons context line more ihblock ihrest =>
      have hwithin := harranged.within line List.mem_cons_self
      have hblock := harranged.sublist (block_sublist context line more)
      rw [phrases_cons]
      refine List.forall_mem_cons.mpr ⟨⟨?_, ?_⟩, ihrest (harranged.sublist (rest_sublist context line more))⟩
      · refine phrase_laid hwithin ?_ (ihblock hblock) (harranged.block_below (phrases_starts _ hblock))
          (phrases_behind _ hblock)
        intro hne statement hfound
        have hopened : (line.opened? context).isSome = true := by
          by_contra hnot
          rw [below, if_neg hnot, phrases] at hne
          exact hne rfl
        rw [opened?, hfound, Option.bind_some, (reading_states hwithin hfound).opens] at hopened
        exact hopened
      · rw [kind_phrase hwithin]
        rfl

end Line

theorem Scene.phrase_laid (source : Text) (name uri : Option String) : (Scene.phrase source name uri).Laid := by
  have harranged := Line.arranged_lines source
  have hempty : (Phrase.empty (.scene name uri) 0).Laid := Phrase.laid_empty rfl rfl 0
  refine (hempty.addAll (fun part hpart => ⟨(Line.phrases_laid .scene harranged part hpart).1, rfl⟩) nofun ?_
    nofun).reach _
  exact (Line.phrases_behind .scene harranged).imp .behind

end Gamebook
