import Gamebook.Proofs.Line.Tiling

/-!
The cutting of a source into lines. A line ends behind its line feed and holds no other one, every line but
the last one has a break, and the lines put together are the source; the empty source is one blank line.
-/

namespace Gamebook.Line

/-- A character that is no line feed goes into the line that follows it, or into its break. -/
theorem cutStep_cons {c : Char} (hfeed : c ≠ '\n') (body : Text) (ending : LineEnding)
    (more : List (Text × LineEnding)) : cutStep c ((body, ending) :: more) =
      if body = [] ∧ ending = .lf ∧ c = '\r' then ([], .crlf) :: more else (c :: body, ending) :: more := by
  unfold cutStep
  rw [if_neg hfeed]
  cases body with
  | nil => cases ending <;> simp
  | cons d body => simp

/-- Cutting, character by character from the end: a line feed begins a break, a carriage return before it
joins it, and every other character goes in front of the first line. -/
theorem cut_induction {motive : Text → List (Text × LineEnding) → Prop} (nil : motive [] [])
    (feed : ∀ text cuts, motive text cuts → motive ('\n' :: text) (([], .lf) :: cuts))
    (single : ∀ c, c ≠ '\n' → motive [c] [([c], .none)])
    (carriage : ∀ text more, text ≠ [] → motive text (([], .lf) :: more) → motive ('\r' :: text) (([], .crlf) :: more))
    (char : ∀ c text body ending more, text ≠ [] → c ≠ '\n' → ¬(body = [] ∧ ending = .lf ∧ c = '\r') →
      motive text ((body, ending) :: more) → motive (c :: text) ((c :: body, ending) :: more)) (text : Text) :
    motive text (cut text) := by
  induction text with
  | nil => exact nil
  | cons c text ih =>
      have hcut : cut (c :: text) = cutStep c (cut text) := rfl
      by_cases hfeed : c = '\n'
      · subst hfeed
        exact feed text _ ih
      · by_cases hne : text = []
        · subst hne
          have hsingle : cutStep c (cut []) = [([c], .none)] := if_neg hfeed
          rw [hcut, hsingle]
          exact single c hfeed
        · obtain ⟨⟨body, ending⟩, more, hmore⟩ := List.exists_cons_of_ne_nil (cut_ne_nil hne)
          rw [hmore] at ih
          rw [hcut, hmore, cutStep_cons hfeed]
          split
          · rename_i hreturn
            obtain ⟨rfl, rfl, rfl⟩ := hreturn
            exact carriage text more hne ih
          · rename_i hreturn
            exact char c text body ending more hne hfeed hreturn ih

/-- A text without line feeds is one line. -/
theorem cut_unbroken {body : Text} (hne : body ≠ []) (hfeed : '\n' ∉ body) : cut body = [(body, .none)] := by
  induction body with
  | nil => exact absurd rfl hne
  | cons c body ih =>
      rw [List.mem_cons, not_or] at hfeed
      have hcut : cut (c :: body) = cutStep c (cut body) := rfl
      by_cases hnil : body = []
      · subst hnil
        exact if_neg (Ne.symm hfeed.1)
      · rw [hcut, ih hnil hfeed.2, cutStep_cons (Ne.symm hfeed.1), if_neg (fun hreturn => nomatch hreturn.2.1)]

/-- A line feed ends its line, with the carriage return before it; so no line holds one. -/
theorem clean_cut (text : Text) : ∀ part ∈ cut text,
    '\n' ∉ part.1 ∧ (part.2 = .lf → part.1.getLast? ≠ some '\r') := by
  induction text using cut_induction with
  | nil => simp
  | feed text cuts ih => exact List.forall_mem_cons.mpr ⟨by simp, ih⟩
  | single c hfeed => simp [Ne.symm hfeed]
  | carriage text more hne ih => exact List.forall_mem_cons.mpr ⟨by simp, (List.forall_mem_cons.mp ih).2⟩
  | char c text body ending more hne hfeed hreturn ih =>
      obtain ⟨⟨hnone, hlast⟩, hmore⟩ := List.forall_mem_cons.mp ih
      refine List.forall_mem_cons.mpr ⟨⟨?_, fun hlf => ?_⟩, hmore⟩
      · rw [List.mem_cons, not_or]
        exact ⟨Ne.symm hfeed, hnone⟩
      · cases body with
        | nil =>
            rw [List.getLast?_singleton]
            intro hc
            exact hreturn ⟨rfl, hlf, Option.some.inj hc⟩
        | cons d body => exact hlast hlf

/-- Every line but the last one ends with a break. -/
theorem broken_cut (text : Text) : (cut text).Pairwise fun upper _ => upper.2 ≠ .none := by
  induction text using cut_induction with
  | nil => exact .nil
  | feed text cuts ih => exact .cons (fun _ _ => LineEnding.noConfusion) ih
  | single c hfeed => exact List.pairwise_singleton _ _
  | carriage text more hne ih => exact .cons (fun _ _ => LineEnding.noConfusion) (List.pairwise_cons.mp ih).2
  | char c text body ending more hne hfeed hreturn ih => exact List.pairwise_cons.mpr (List.pairwise_cons.mp ih)

/-- No line is empty. -/
theorem filled_cut (text : Text) : ∀ part ∈ cut text, part.1 ++ part.2.text ≠ [] := by
  induction text using cut_induction with
  | nil => nofun
  | feed text cuts ih => exact List.forall_mem_cons.mpr ⟨List.cons_ne_nil _ _, ih⟩
  | single c hfeed => exact List.forall_mem_singleton.mpr (List.cons_ne_nil _ _)
  | carriage text more hne ih =>
      exact List.forall_mem_cons.mpr ⟨List.cons_ne_nil _ _, (List.forall_mem_cons.mp ih).2⟩
  | char c text body ending more hne hfeed hreturn ih =>
      exact List.forall_mem_cons.mpr ⟨List.cons_ne_nil _ _, (List.forall_mem_cons.mp ih).2⟩

/-! ### The lines of a source -/

theorem map_layOut (number start : Nat) (cuts : List (Text × LineEnding)) :
    (layOut number start cuts).map (fun line => (line.indent ++ line.content, line.ending)) = cuts := by
  induction cuts generalizing number start with
  | nil => rfl
  | cons part more ih =>
      rw [layOut, List.map_cons, ih, ofBody, List.takeWhile_append_dropWhile]

theorem map_split {source : Text} (hsource : source ≠ []) :
    (split source).map (fun line => (line.indent ++ line.content, line.ending)) = cut source := by
  rw [split_eq_lines hsource, lines, map_layOut]

theorem number_of_getElem?_split {source : Text} {index : Nat} {line : Line}
    (h : (split source)[index]? = some line) : line.number = index := by
  by_cases hsource : source = []
  · subst hsource
    obtain ⟨hindex, rfl⟩ := List.getElem?_eq_some_iff.mp h
    obtain rfl : index = 0 := Nat.lt_one_iff.mp hindex
    rfl
  · rw [split_eq_lines hsource] at h
    exact number_of_getElem?_lines h

theorem flatMap_split (source : Text) : (split source).flatMap whole = source := by
  by_cases hsource : source = []
  · subst hsource
    rfl
  · have hflat := flatMap_cut source
    rw [← map_split hsource, List.flatMap_map] at hflat
    exact hflat

theorem arranged_split (source : Text) : Arranged source (split source) := by
  by_cases hsource : source = []
  · subst hsource
    refine ⟨fun line hline => ?_, List.pairwise_singleton _ _⟩
    rw [List.mem_singleton.mp hline]
    exact ⟨⟨[], [], rfl, rfl⟩, by simp [ofBody]⟩
  · rw [split_eq_lines hsource]
    exact arranged_lines source

theorem Arranged.getElem? {source : Text} {lines : List Line} (h : Arranged source lines) {index : Nat} {line : Line}
    (hline : lines[index]? = some line) : ∃ front back, lines = front ++ line :: back ∧ front.length = index ∧
      (∀ upper ∈ front, upper.stop ≤ line.start) ∧ ∀ lower ∈ back, line.stop ≤ lower.start := by
  obtain ⟨hindex, rfl⟩ := List.getElem?_eq_some_iff.mp hline
  have hsplit : lines = lines.take index ++ lines[index] :: lines.drop (index + 1) := by
    rw [← List.drop_eq_getElem_cons hindex, List.take_append_drop]
  have hsorted := h.sorted
  rw [hsplit, List.pairwise_append, List.pairwise_cons] at hsorted
  obtain ⟨_, ⟨hback, _⟩, hfront⟩ := hsorted
  exact ⟨_, _, hsplit, by rw [List.length_take]; omega,
    fun upper hupper => hfront upper hupper _ List.mem_cons_self, hback⟩

theorem Within.stop_le {source : Text} {line : Line} (h : line.Within source) : line.stop ≤ Text.bytes source := by
  obtain ⟨front, back, hsource, hfront⟩ := h.split
  rw [hsource, Text.bytes_append, Text.bytes_append, hfront, bytes_whole]
  omega

theorem start_le_stop (line : Line) : line.start ≤ line.stop := by
  rw [← bytes_whole]
  omega

theorem exists_line_layOut {number start offset : Nat} {cuts : List (Text × LineEnding)} (hfrom : start ≤ offset)
    (hto : offset < start + Text.bytes (cuts.flatMap fun part => part.1 ++ part.2.text)) :
    ∃ line ∈ layOut number start cuts, line.start ≤ offset ∧ offset < line.stop := by
  induction cuts generalizing number start with
  | nil =>
      rw [List.flatMap_nil, Text.bytes_nil] at hto
      omega
  | cons part more ih =>
      obtain ⟨body, ending⟩ := part
      have hstop := stop_ofBody number start body ending
      rw [List.flatMap_cons, Text.bytes_append, Text.bytes_append] at hto
      dsimp only at hto
      by_cases hin : offset < (ofBody number start body ending).stop
      · exact ⟨_, List.mem_cons_self, hfrom, hin⟩
      · obtain ⟨line, hline, hplace⟩ := @ih (number + 1) (start + Text.bytes body + Text.bytes ending.text) (by omega) (by omega)
        exact ⟨line, List.mem_cons_of_mem _ hline, hplace⟩

/-- Every offset of a source is on one of its lines. -/
theorem exists_line_at {source : Text} {offset : Nat} (h : offset < Text.bytes source) :
    ∃ line ∈ split source, line.start ≤ offset ∧ offset < line.stop := by
  have hsource : source ≠ [] := by
    rintro rfl
    exact Nat.not_lt_zero _ h
  rw [split_eq_lines hsource]
  refine exists_line_layOut (Nat.zero_le _) ?_
  rwa [flatMap_cut, Nat.zero_add]

/-- What makes a line: its indentation is all that is blank in front of it, its break all that ends it. -/
structure Clean (line : Line) : Prop where
  indent : ∀ c ∈ line.indent, Text.isBlank c = true
  trimmed : ∀ c ∈ line.content.head?, Text.isBlank c = false
  feed : '\n' ∉ line.content
  carriage : line.ending = .lf → line.content.getLast? ≠ some '\r'

theorem clean_ofBody (number start : Nat) {body : Text} {ending : LineEnding} (hfeed : '\n' ∉ body)
    (hcarriage : ending = .lf → body.getLast? ≠ some '\r') : (ofBody number start body ending).Clean := by
  have hsplit := List.takeWhile_append_dropWhile (p := Text.isBlank) (l := body)
  refine ⟨List.all_eq_true.mp List.all_takeWhile, Text.trimmed_dropWhile body, ?_, fun hlf hlast => ?_⟩
  · exact fun hmem => hfeed ((List.dropWhile_sublist _).subset hmem)
  · refine hcarriage hlf ?_
    rw [← hsplit, List.getLast?_append, show (body.dropWhile Text.isBlank).getLast? = some '\r' from hlast]
    rfl

theorem clean_of_mem_layOut {number start : Nat} {cuts : List (Text × LineEnding)} {line : Line}
    (hcuts : ∀ part ∈ cuts, '\n' ∉ part.1 ∧ (part.2 = .lf → part.1.getLast? ≠ some '\r'))
    (h : line ∈ layOut number start cuts) : line.Clean := by
  induction cuts generalizing number start with
  | nil => cases h
  | cons part more ih =>
      obtain ⟨hpart, hmore⟩ := List.forall_mem_cons.mp hcuts
      rcases List.mem_cons.mp h with rfl | h
      · exact clean_ofBody number start hpart.1 hpart.2
      · exact ih hmore h

theorem clean_of_mem_split {source : Text} {line : Line} (h : line ∈ split source) : line.Clean := by
  by_cases hsource : source = []
  · subst hsource
    rw [List.mem_singleton.mp h]
    exact clean_ofBody 0 0 (by simp) (by simp)
  · rw [split_eq_lines hsource] at h
    exact clean_of_mem_layOut (clean_cut source) h

theorem clean_of_mem_lines {source : Text} {line : Line} (h : line ∈ lines source) : line.Clean :=
  clean_of_mem_layOut (clean_cut source) h

theorem mem_split_of_mem_lines {source : Text} {line : Line} (h : line ∈ lines source) : line ∈ split source := by
  unfold split
  split
  · rename_i hnone
    rw [hnone] at h
    cases h
  · exact h

/-- A line without break is the last one. -/
theorem broken_split (source : Text) : (split source).Pairwise fun upper _ => upper.hasBreak = true := by
  by_cases hsource : source = []
  · subst hsource
    exact List.pairwise_singleton _ _
  · have hbroken := broken_cut source
    rw [← map_split hsource, List.pairwise_map] at hbroken
    exact hbroken.imp fun h => bne_iff_ne.mpr h

theorem nil_of_noBreak {source : Text} {front back : List Line} {line : Line}
    (hsplit : split source = front ++ line :: back) (hbreak : ¬line.hasBreak = true) : back = [] := by
  have hbroken := broken_split source
  rw [hsplit, List.pairwise_append, List.pairwise_cons] at hbroken
  exact List.eq_nil_iff_forall_not_mem.mpr fun lower hlower => hbreak (hbroken.2.1.1 lower hlower)

/-- The lines of a source that is not empty hold something. -/
theorem start_lt_stop {source : Text} (hsource : source ≠ []) {line : Line} (h : line ∈ split source) :
    line.start < line.stop := by
  have hpart : (line.indent ++ line.content, line.ending) ∈ cut source := by
    rw [← map_split hsource]
    exact List.mem_map.mpr ⟨line, h, rfl⟩
  have hpos : 0 < Text.bytes line.whole := Text.bytes_pos (filled_cut source _ hpart)
  rw [← bytes_whole]
  omega

end Gamebook.Line
