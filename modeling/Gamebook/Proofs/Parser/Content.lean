import Gamebook.Proofs.Grammar.Statement
import Gamebook.Proofs.Parser.Command

/-!
Statements by token and by lexeme. Every line with content holds one statement; the node that is made for it,
and what is expected on the lines below, are those of the reading.
-/

namespace Gamebook.Parser

variable {site : Site} {old : Tree} {p q : Parser} {r behind : Reader} {phrase part : Phrase} {id child : Nat}

/-- The outcome of a statement agrees with that of its reading. -/
structure States (site : Site) (old : Tree) (made : Stated × Parser) (read : Statement × Reader) : Prop where
  agrees : Agrees site old made.1.node made.2 read.1.phrase read.2
  opens : made.1.opens = read.1.opens

/-! ### Commands -/

theorem Reads.named (h : p.Reads site r) (hrest : r.rest ≠ []) (kind : Kind) (start : Nat) :
    Accords site p.tree (named kind (site.line.start + start) p) ((Phrase.empty kind start).finish r.next, r.next) := by
  have hcreated := h.createAt kind start
  have hnamed : Agrees site p.tree (p.createAt kind (site.line.start + start)).1
      (p.createAt kind (site.line.start + start)).2.next (.empty kind start) r.next :=
    ⟨hcreated.reads.next hrest, hcreated.holds⟩
  exact hnamed.finish

theorem Reads.plainCommand (h : p.Reads site r) (hrest : r.rest ≠ []) (start : Nat) (name : String) :
    Accords site p.tree (Grammar.plainCommand Id (site.line.start + start) name p) (Reader.plainCommand start name r) := by
  have hknown := fun kind => h.named hrest kind start
  unfold Grammar.plainCommand Reader.plainCommand
  dsimp only
  cases Command.classify name with
  | unknown => exact markRest_continues rfl (h.createAt (.command name) start)
  | ordinary | flow =>
      dsimp only
      split
      · exact prose_continues ((hknown _).switch .text)
      · exact (arguments_continues (hknown _)).finish

/-- A form of command fills the node of its name. -/
theorem Reads.filled (h : p.Reads site r) (hrest : r.rest ≠ []) (start : Nat) (opens : Option Context) (kind : Kind)
    {fill : Filling} {reading : Phrase → Reader → Phrase × Reader} (hfill : Continues site fill reading) :
    States site p.tree (Grammar.filled Id (site.line.start + start) opens kind fill p)
      (⟨(reading ((Phrase.empty kind start).finish r.next) r.next).1, opens⟩,
        (reading ((Phrase.empty kind start).finish r.next) r.next).2) := ⟨hfill (h.named hrest kind start), rfl⟩

theorem Reads.commandNamed (h : p.Reads site r) (hrest : r.rest ≠ []) (start : Nat) (context : Context) :
    States site p.tree (Grammar.commandNamed Id (site.line.start + start) context p)
      (Reader.commandNamed start context r) := by
  have hend : r.atEnd = false := by rwa [← Bool.not_eq_true, Reader.atEnd_iff]
  have hword := h.word hend
  have hfilled := @Reads.filled site p r h hrest start
  unfold Grammar.commandNamed Reader.commandNamed
  rw [hword]
  dsimp only
  cases CommandForm.ofName r.word with
  | declaration kind => exact hfilled none _ (declaration_continues kind)
  | assignment byReference => exact hfilled none _ (assignment_continues byReference)
  | random => exact hfilled none _ (requireName_continues 2)
  | label => exact hfilled none _ labelDeclaration_continues
  | jump takes => exact hfilled none _ (jump_continues takes)
  | sceneJump takes => exact hfilled none _ (sceneJump_continues takes)
  | computedJump => exact hfilled none _ (requireExpressions_continues 1)
  | value => exact hfilled none _ (requireExpressions_continues 1)
  | input bounded => exact hfilled none _ (requireName_continues _)
  | parameters =>
      have hnames := hfilled none (.standardCommand r.word) names_continues
      exact hnames
  | condition => exact hfilled (some context.below) _ (requireExpressions_continues 1)
  | otherwise => exact hfilled (some context.below) _ finishLine_continues
  | choice fake => exact hfilled (some .choice) _ arguments_continues
  | sceneList => exact hfilled (some .sceneList) _ finishLine_continues
  | proseBlock => exact hfilled (some .prose) _ arguments_continues
  | plain => exact ⟨h.plainCommand hrest start r.word, rfl⟩

/-! ### Lines with content -/

theorem Stands.plainOption (h : p.Stands site r) (hhash : r.sees .hash = true) :
    States site p.tree (Grammar.plainOption Id p) (Reader.plainOption r) :=
  ⟨optionText_begins (h.create _) (h.holds_create _) hhash, rfl⟩

theorem opens_modifiedOption {context : Context} {option : Statement}
    (hfound : Reader.modifiedOption context r = (some option, behind)) : option.opens = some .body := by
  unfold Reader.modifiedOption at hfound
  split at hfound
  · cases hfound
  · split at hfound
    · cases hfound
      rfl
    · cases hfound

theorem modifiedOption_none {context : Context} (hnone : (Reader.modifiedOption context r).1 = none) :
    Reader.modifiedOption context r = (none, r) := by
  unfold Reader.modifiedOption at hnone ⊢
  split
  · rfl
  · rename_i hfound
    rw [hfound] at hnone
    dsimp only at hnone ⊢
    split
    · rename_i hhash
      rw [if_pos hhash] at hnone
      cases hnone
    · rfl

theorem Stands.command (h : p.Stands site r) (context : Context) (hrest : r.rest ≠ []) (hname : r.next.rest ≠ []) :
    States site p.tree (Grammar.command Id context p) (Reader.command context r) := by
  have hoption := modifiedOption_agrees context h
  unfold Grammar.command Reader.command
  generalize Grammar.modifiedOption Id context p = outcome at hoption ⊢
  generalize hread : Reader.modifiedOption context r = read at hoption ⊢
  obtain ⟨option, behind⟩ := read
  cases option with
  | none =>
      obtain rfl : behind = r := (congrArg (·.2) ((modifiedOption_none (congrArg (·.1) hread)).symm.trans hread)).symm
      cases hoption
      dsimp only [Course.bind_counted]
      rw [h.offset]
      exact (h.next hrest).commandNamed hname _ context
  | some option =>
      cases hoption with
      | made hoption => exact ⟨hoption, (opens_modifiedOption hread).symm⟩

theorem Stands.textLine (h : p.Stands site r) (hrest : r.rest ≠ []) :
    States site p.tree (Grammar.textLine Id p) (Reader.textLine r) :=
  ⟨prose_begins (h.create .textLine) (h.holds_create .textLine) hrest, rfl⟩

theorem Stands.sceneName (h : p.Stands site r) (hrest : r.rest ≠ []) : ∃ q, p.recut = (true, q) ∧
    Agrees site p.tree (q.leaf .sceneRef).1 (Grammar.finishLine Id (q.leaf .sceneRef).1 (q.leaf .sceneRef).2)
      ((r.leafRun .sceneRef).1.finishLine (r.leafRun .sceneRef).2).1
      ((r.leafRun .sceneRef).1.finishLine (r.leafRun .sceneRef).2).2 := by
  obtain ⟨q, hrecut, htree, hq⟩ := h.recut hrest
  have hscene := finishLine_continues (hq.leaf .sceneRef)
  rw [htree] at hscene
  exact ⟨q, hrecut, hscene⟩

theorem Stands.sceneListEntry (h : p.Stands site r) (hrest : r.rest ≠ []) :
    States site p.tree (Grammar.sceneListEntry Id p) (Reader.sceneListEntry r) := by
  unfold Grammar.sceneListEntry Reader.sceneListEntry
  rcases h.accept .dollar rfl with ⟨-, hp, hr, hnext⟩ | ⟨-, hp, hr⟩
  · rw [hp, hr]
    dsimp only
    by_cases hnamed : r.next.rest = []
    · rw [hnext.not_recut hnamed, if_pos (Reader.atEnd_iff.mpr hnamed), h.offset]
      exact ⟨markRest_continues rfl (hnext.createAt .sceneRef r.offset), rfl⟩
    · obtain ⟨q, hrecut, hscene⟩ := hnext.sceneName hnamed
      rw [hrecut, if_neg (mt Reader.atEnd_iff.mp hnamed)]
      exact ⟨hscene, rfl⟩
  · rw [hp, hr]
    dsimp only
    obtain ⟨q, hrecut, hscene⟩ := h.sceneName hrest
    rw [hrecut, if_neg (mt Reader.atEnd_iff.mp hrest)]
    exact ⟨hscene, rfl⟩

theorem States.checkChoice (context : Context) {made : Stated × Parser} {read : Statement × Reader}
    (h : States site old made read) :
    States site old (made.1, checkChoice context made.1.node made.2) (Reader.checkChoice context read.1 read.2, read.2) := by
  obtain ⟨node, hnode, hkind, hoffset, -⟩ := h.agrees.holds.node?
  unfold Parser.checkChoice Reader.checkChoice
  rw [hnode]
  dsimp only
  rw [hkind, hoffset, h.agrees.reads.lastEnd, Nat.add_sub_add_left]
  split
  · have hrule : Rule.choiceOptionExpected.isSettable = false := rfl
    have hend := h.agrees.reads.site_le (.inl rfl)
    have hordered := h.agrees.holds.stores.ordered
    rw [Phrase.shift_start, Phrase.shift_stop] at hordered
    -- The statement ends with what was taken last, or nothing was taken behind its start.
    have hbears : site.Bears read.1.phrase read.1.phrase.start (read.2.lastEnd - read.1.phrase.start) := by
      rcases Nat.le_total read.1.phrase.start read.2.lastEnd with hle | hge
      · exact .inl (by omega)
      · exact .inr ⟨Nat.le_refl _, by omega⟩
    exact ⟨h.agrees.flag hrule hbears, h.opens⟩
  · exact h

theorem States.optionOutsideChoice {made : Stated × Parser} {read : Statement × Reader}
    (h : States site old made read) (hroom : site.line.start + read.1.phrase.start + 1 ≤ site.line.contentEnd) :
    States site old
      (made.1, made.2.flag made.1.node .optionOutsideChoice
        (((made.2.tree.node? made.1.node).map (·.offset)).getD 0) 1)
      ({ read.1 with phrase := read.1.phrase.flag .optionOutsideChoice read.1.phrase.start 1 }, read.2) := by
  obtain ⟨node, hnode, -, hoffset, -⟩ := h.agrees.holds.node?
  have hrule : Rule.optionOutsideChoice.isSettable = false := rfl
  rw [hnode, Option.map_some, Option.getD_some, hoffset]
  exact ⟨h.agrees.flag hrule (.inl hroom), h.opens⟩

/-- What a line holds by its type: an option begins with its number sign, a command with an asterisk that
something follows. -/
structure Typed (type : LineType) (r : Reader) : Prop where
  option : type = .option → r.sees .hash = true
  command : type = .command → r.sees .asterisk = true ∧ r.next.rest ≠ []

theorem Stands.contentLine (h : p.Stands site r) (context : Context) {type : LineType} (htyped : Typed type r)
    (hrest : r.rest ≠ []) :
    States site p.tree (Grammar.contentLine Id context type p) (Reader.contentLine context type r) := by
  cases type with
  | option =>
      have hoption := h.plainOption (htyped.option rfl)
      cases context with
      | sceneList => exact h.sceneListEntry hrest
      | prose => exact h.textLine hrest
      | choice => exact hoption
      | scene | body =>
          have hstart : (Reader.plainOption r).1.phrase.start = r.offset := r.plainOption_completes.grows.start_eq rfl
          exact hoption.optionOutsideChoice (hstart ▸ h.succ_le hrest)
  | command =>
      obtain ⟨hasterisk, hname⟩ := htyped.command rfl
      have hsees : p.sees .asterisk = true := (h.sees rfl).trans hasterisk
      cases context with
      | sceneList => exact h.sceneListEntry hrest
      | prose => exact h.textLine hrest
      | scene | body | choice =>
          unfold Grammar.contentLine Reader.contentLine
          dsimp only
          rw [if_pos hsees]
          exact h.command _ hrest hname
  | text | comment =>
      cases context with
      | sceneList => exact h.sceneListEntry hrest
      | scene | body | choice | prose => exact h.textLine hrest

/-- The outcome for a line agrees with what was read on it, where the line holds anything. -/
inductive MayState (site : Site) (p : Parser) (r : Reader) :
    Option Stated × Parser → Option Statement × Reader → Prop
  | none : MayState site p r (none, p) (none, r)
  | stated {made : Stated × Parser} {read : Statement × Reader} (h : States site p.tree made read) :
      MayState site p r (some made.1, made.2) (some read.1, read.2)

/-- A line that is no comment. -/
theorem Stands.statement (h : p.Stands site r) (context : Context) {type : LineType} (htyped : Typed type r)
    (hcomment : type ≠ .comment) :
    MayState site p r (Grammar.statement Id context type p) (Reader.statement context type r) := by
  have hlexeme : p.sees .singleLineComment = false := by
    rcases h.cases with ⟨-, htoken, -⟩ | ⟨lexeme, left, hfirst, htoken, -⟩
    · have hends := site.endsLine_ending
      rw [← htoken] at hends
      refine beq_eq_false_iff_ne.mpr fun hkind => ?_
      rw [hkind] at hends
      cases hends
    · rw [Parser.sees, htoken]
      exact beq_eq_false_iff_ne.mpr (Lexeme.kind_of_first? hfirst).2
  unfold Grammar.statement Reader.statement
  rw [h.atEnd, hlexeme]
  by_cases hrest : r.rest = []
  · rw [if_pos (Reader.atEnd_iff.mpr hrest), if_pos (Reader.atEnd_iff.mpr hrest)]
    exact .none
  · have hend := mt Reader.atEnd_iff.mp hrest
    rw [if_neg hend, if_neg hend, if_neg hcomment]
    exact .stated ((h.contentLine context htyped hrest).checkChoice context)

end Gamebook.Parser
