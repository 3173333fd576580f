import Gamebook.Proofs.Checked.Expression
import Gamebook.Proofs.Parser.Prose

/-!
Prose gets on. A word is a token, and a construct takes at least the sign that opens it; what does not open is
passed over with its sign. The branches of a multireplace begin behind the sign and the brace that open it.
-/

namespace Gamebook.Checked

open Course (again again_of_advances checked_eq counted_succ)
open Gamebook.Parser (Stands Reads Refines Agrees MayAgree Continues)

variable {site : Site} {p q : Parser} {r : Reader} {limit spare budget : Nat}

/-- A checked rule that fills a node, the rule and the reading belong together, where less than the given number of
characters is left of the line. -/
structure Fits (site : Site) (limit : Nat) (checked : Filling) (rule : Nat → Parser → Parser)
    (reading : Phrase → Reader → Phrase × Reader) : Prop where
  fills : ∀ ⦃old : Tree⦄ ⦃id : Nat⦄ ⦃p : Parser⦄ ⦃phrase : Phrase⦄ ⦃r : Reader⦄, Agrees site old id p phrase r →
    r.rest.length < limit → checked id p = some (rule id p)
  continues : Continues site rule reading
  extending : Reader.Extending reading

theorem bangs_eq (h : p.Stands site r) (hbudget : r.rest.length ≤ budget) :
    Grammar.bangs Option spare p = some (Grammar.bangs Id budget p) := by
  induction budget generalizing p r with
  | zero =>
      have hbang : ¬(p.sees (.delim '!') && p.followsDirectly) = true := by
        rw [Bool.and_eq_true]
        exact fun hbang => h.not_sees hbudget rfl hbang.1
      rw [Grammar.bangs, checked_eq, if_neg hbang]
      rfl
  | succ budget ih =>
      unfold Grammar.bangs
      rw [checked_eq, counted_succ]
      split
      · rename_i hbang
        rw [h.sees rfl, Bool.and_eq_true] at hbang
        have hrest := Reader.rest_ne_nil_of_sees hbang.1
        have hlt := Reader.next_length_lt hrest
        have hnext := (h.next hrest).toStands
        exact Option.bind_eq_some_iff.mpr ⟨_, (again_of_advances (h.advances hnext hlt) ()).trans (ih hnext (by omega)), rfl⟩
      · rfl

theorem closeBrace_eq (h : p.Reads site r) (id : Nat) :
    Grammar.closeBrace Option id p = some (Grammar.closeBrace Id id p) := by
  unfold Grammar.closeBrace Parser.accept
  cases p.sees .curlyR with
  | true => rfl
  | false => exact Option.bind_eq_some_iff.mpr ⟨_, skipTo_eq (h.complain id .rightCurlyExpected).toStands _, rfl⟩

theorem replacement_eq (h : p.Stands site r) (hrest : r.rest ≠ []) :
    Grammar.replacement Option p = some (Grammar.replacement Id p) := by
  have hbegin := h.begin hrest (.variableReplacement .none)
  have hbudget : r.next.rest.length ≤ p.ahead.length := h.ahead ▸ r.reaches_next.length_le
  have hmarked := (hbegin.bangs p.ahead.length).2.reads
  unfold Grammar.replacement
  dsimp only [Course.bind_counted]
  refine Option.bind_eq_some_iff.mpr ⟨_, bangs_eq hbegin.reads.toStands hbudget, ?_⟩
  cases Reader.foldOfBangs? (Grammar.bangs Id p.ahead.length (p.create (.variableReplacement .none)).2.next).1 with
  | none => rfl
  | some fold =>
      dsimp only
      split
      · rename_i hbrace
        rw [hmarked.opensBrace, Reader.opensBrace, Bool.and_eq_true] at hbrace
        have hopened := ((hmarked.setKind (p.create (.variableReplacement .none)).1 (.variableReplacement fold)).next
          (Reader.rest_ne_nil_of_sees hbrace.1)).switch .command
        have hbehind := Parser.expression_refines.reads hopened
        exact Option.bind_eq_some_iff.mpr ⟨_, expression_eq hopened, Option.bind_eq_some_iff.mpr
          ⟨_, closeBrace_eq (hbehind.adoptOr _ _ _) _, rfl⟩⟩
      · rfl

section Branches

variable {content : Filling} {rule : Nat → Parser → Parser} {reading : Phrase → Reader → Phrase × Reader}
  (hcontent : Fits site limit content rule reading)
include hcontent

theorem branches_eq {id : Nat} (h : p.Reads site r) (hlimit : r.rest.length < limit) (hbudget : r.rest.length < budget) :
    Grammar.branches Option content spare id p = some (Grammar.branches Id rule budget id p) := by
  induction budget generalizing p r with
  | zero => exact absurd hbudget (Nat.not_lt_zero _)
  | succ budget ih =>
      have hcreated : Agrees site p.tree (p.create .multiReplaceOption).1 (p.create .multiReplaceOption).2
          (.begin .multiReplaceOption r) r := h.create .multiReplaceOption
      have hbranch := (hcontent.continues hcreated).finish.reads.adopt id (p.create .multiReplaceOption).1
      have hle := (hcontent.extending (.begin .multiReplaceOption r) r).reaches.length_le
      unfold Grammar.branches
      rw [checked_eq, counted_succ]
      dsimp only [Course.bind_counted]
      refine Option.bind_eq_some_iff.mpr ⟨_, hcontent.fills hcreated hlimit, ?_⟩
      rcases hbranch.accept .pipe rfl with ⟨hpipe, haccept, -, hnext⟩ | ⟨-, haccept, -⟩
      · have hlt := Reader.next_length_lt (Reader.rest_ne_nil_of_sees hpipe)
        rw [haccept]
        exact Option.bind_eq_some_iff.mpr ⟨_, (again_of_advances (h.advances hnext.toStands (by omega)) id).trans
          (ih hnext (by omega) (by omega)), rfl⟩
      · rw [haccept]
        rfl

theorem multireplace_eq (h : p.Stands site r) (hrest : r.rest ≠ []) (hlimit : r.rest.length ≤ limit)
    (hbudget : r.rest.length ≤ budget) :
    Grammar.multireplace Option spare content p = some (Grammar.multireplace Id budget rule p) := by
  have hsigned := h.begin hrest .multiReplace
  have hlt := Reader.next_length_lt hrest
  unfold Grammar.multireplace
  dsimp only
  split
  · rename_i hbrace
    rw [hsigned.reads.opensBrace, Reader.opensBrace, Bool.and_eq_true] at hbrace
    have hopened := (hsigned.next (Reader.rest_ne_nil_of_sees hbrace.1)).switch .command
    have hselector := (hopened.adoptOr (Parser.term_refines hopened.reads) .expressionExpected rfl).switch .text
    have hbranches := (Parser.branches_agrees hcontent.continues budget hselector).2.reads
    have hshorter : ((r.next.next.switch .command).term.2.switch .text).rest.length < r.rest.length := by
      have htaken := r.next.reaches_next.length_le
      have hle := (Reader.term_regular (r.next.next.switch .command)).reaches.length_le
      change _ ≤ r.next.next.rest.length at hle
      show (r.next.next.switch .command).term.2.rest.length < _
      omega
    refine Option.bind_eq_some_iff.mpr ⟨_, term_eq hopened.reads, Option.bind_eq_some_iff.mpr
      ⟨_, branches_eq hcontent hselector.reads (by omega) (by omega), Option.bind_eq_some_iff.mpr
        ⟨_, closeBrace_eq (hbranches.flagWhole_ite _ _ _) _, rfl⟩⟩⟩
  · rfl

end Branches

/-- A word or construct of prose is the same for a parser that is checked. -/
theorem prosePart_eq {content : Filling} {rule : Nat → Parser → Parser} {reading : Phrase → Reader → Phrase × Reader}
    (hcontent : Fits site limit content rule reading) (h : p.Stands site r) (hrest : r.rest ≠ [])
    (hlimit : r.rest.length ≤ limit) (hbudget : r.rest.length ≤ budget) :
    Grammar.prosePart Option spare content p = some (Grammar.prosePart Id budget rule p) := by
  unfold Grammar.prosePart
  generalize p.token.kind = kind
  cases kind with
  | dollar => exact replacement_eq h hrest
  | atSign => exact multireplace_eq hcontent h hrest hlimit hbudget
  | _ => rfl

/-- What comes of a part of prose: it is adopted, or what is no part of it is passed over. -/
theorem goOn_eq (more : Filling) (rule : Nat → Parser → Parser) {found : Option Phrase × Reader} {id : Nat}
    {outcome : Option Nat × Parser} (h : p.Stands site r) (hrest : r.rest ≠ []) (hyield : r.MayYield found)
    (hmore : ∀ {q : Parser} {behind : Reader}, q.Stands site behind → behind.rest.length < r.rest.length →
      more id q = some (rule id q)) : MayAgree site p r outcome found →
    (match outcome with
      | (some part, p) => more id (p.adopt id part)
      | (none, p) => more id p.next) =
    some (match outcome with
      | (some part, p) => rule id (p.adopt id part)
      | (none, p) => rule id p.next) := by
  intro hpart
  have hlt := Reader.next_length_lt hrest
  cases hpart with
  | none => exact hmore (h.next hrest).toStands hlt
  | made hpart =>
      cases hyield with
      | found hyield => exact hmore (hpart.reads.toStands.adopt _ _) (Nat.lt_of_le_of_lt hyield.taken.length_le hlt)

/-- By how much is left of the line: prose goes on behind each part, and the prose in a part begins behind its
first token. -/
theorem proseWithin_eq (ends : TokenKind → Bool) (id : Nat) (h : p.Stands site r) (hbudget : r.rest.length < budget) :
    Grammar.proseWithin Option spare ends id p = some (Grammar.proseWithin Id budget ends id p) := by
  induction budget generalizing p r ends id with
  | zero => exact absurd hbudget (Nat.not_lt_zero _)
  | succ budget ih =>
      rw [Grammar.proseWithin_succ, Grammar.proseWithin, checked_eq]
      dsimp only
      split
      · rfl
      · rename_i hgoes
        rw [Bool.or_eq_true, not_or, Bool.not_eq_true, h.atEnd, Bool.eq_false_iff, Ne, Reader.atEnd_iff] at hgoes
        have hrest := hgoes.1
        have hle : r.rest.length ≤ budget := Nat.le_of_lt_succ hbudget
        have hmore : ∀ {q : Parser} {behind : Reader} (ends : TokenKind → Bool) (id : Nat), q.Stands site behind →
            behind.rest.length < r.rest.length → again _ p (ends, id) q = some (Grammar.proseWithin Id budget ends id q) :=
          fun ends id hq hshorter => (again_of_advances (h.advances hq hshorter) _).trans (ih ends id hq (by omega))
        have hcontent : Fits site r.rest.length (fun id => again _ p (Reader.endsBranch, id))
            (Grammar.proseWithin Id budget Reader.endsBranch) (Reader.proseWithin budget Reader.endsBranch) :=
          ⟨fun _ _ _ _ _ hagrees => hmore _ _ hagrees.reads.toStands, Parser.proseWithin_continues budget _,
            Reader.proseWithin_extending budget _⟩
        have hyield := Reader.prosePart_mayYield (Reader.proseWithin_extending budget Reader.endsBranch) r p.token.kind
        have hmay := h.prosePart (Parser.proseWithin_continues budget Reader.endsBranch) hrest
        exact Option.bind_eq_some_iff.mpr ⟨_, prosePart_eq hcontent h hrest (Nat.le_refl _) hle,
          goOn_eq (fun id => again _ p (ends, id)) (Grammar.proseWithin Id budget ends) h hrest hyield (hmore ends id) hmay⟩

theorem prose_eq (h : p.Stands site r) (id : Nat) : Grammar.prose Option id p = some (Grammar.prose Id id p) := by
  have hlt : r.rest.length < p.budget := h.budget ▸ Nat.lt_succ_self _
  exact Option.bind_eq_some_iff.mpr ⟨_, proseWithin_eq _ id h hlt, rfl⟩

/-! ### Options -/

/-- The text of an option behind its number sign, which may begin the line. -/
theorem optionText_eq (h : p.Stands site r) (hhash : r.sees .hash = true) (id : Nat) :
    Grammar.optionText Option id p = some (Grammar.optionText Id id p) := by
  unfold Grammar.optionText
  rcases h.accept .hash rfl with ⟨-, haccept, -, hnext⟩ | ⟨hsees, -, -⟩
  · rw [haccept]
    exact prose_eq (hnext.switch .text).toStands id
  · rw [hhash] at hsees
    cases hsees

/-- A condition is taken behind the name of a modifier that needs one. -/
theorem modifierMeaning_eq (word : String) (id : Nat) (found : Parser.Modifiers) (h : p.Reads site r) :
    Grammar.modifierMeaning Option word id found p = some (Grammar.modifierMeaning Id word id found p) ∧
      ∃ behind : Reader, (Grammar.modifierMeaning Id word id found p).2.Reads site behind ∧
        behind.rest.length ≤ r.rest.length := by
  unfold Grammar.modifierMeaning
  cases Reader.reuseOf? word with
  | some reuse => exact ⟨rfl, r, h, Nat.le_refl _⟩
  | none =>
      have hbehind := Parser.expression_refines.reads h
      have hle := (Reader.expression_regular r).reaches.length_le
      dsimp only [Course.bind_counted]
      rw [expression_eq h]
      generalize Grammar.expression Id p = outcome at hbehind ⊢
      obtain ⟨_ | condition, q⟩ := outcome
      · exact ⟨rfl, _, hbehind, hle⟩
      · exact ⟨rfl, _, hbehind.adopt id condition, hle⟩

theorem modifier_eq (found : Parser.Modifiers) (h : p.Stands site r) (hrest : r.rest ≠ []) :
    Grammar.modifier Option found p = some (Grammar.modifier Id found p) ∧
      ∃ behind : Reader, (Grammar.modifier Id found p).2.Stands site behind ∧ behind.rest.length < r.rest.length := by
  have hname := h.next hrest
  have hlt := Reader.next_length_lt hrest
  unfold Grammar.modifier
  dsimp only
  split
  · rename_i hmodifier
    rw [hname.sees rfl, Bool.and_eq_true] at hmodifier
    have hnamed := Reader.rest_ne_nil_of_sees hmodifier.1
    have hshorter := Reader.next_length_lt hnamed
    let made := p.next.createAt (.standardCommand p.next.word) p.token.offset
    have hmade : made.2.Reads site r.next := hname.retree hname.source
    obtain ⟨hmeaning, behind, hbehind, hle⟩ :=
      modifierMeaning_eq p.next.word made.1 found ((hmade.next hnamed).finish made.1)
    exact ⟨hmeaning, behind, hbehind.toStands, by omega⟩
  · exact ⟨rfl, r.next, hname.toStands, hlt⟩

theorem modifiersWithin_eq (found : Parser.Modifiers) (h : p.Stands site r) (hbudget : r.rest.length ≤ budget) :
    Grammar.modifiersWithin Option spare found p = some (Grammar.modifiersWithin Id budget found p) := by
  induction budget generalizing p r found with
  | zero =>
      rw [Grammar.modifiersWithin, checked_eq, if_neg (h.not_sees hbudget rfl)]
      rfl
  | succ budget ih =>
      rw [Grammar.modifiersWithin_succ, Grammar.modifiersWithin, checked_eq]
      split
      · rename_i hasterisk
        have hrest := Reader.rest_ne_nil_of_sees ((h.sees rfl).symm.trans hasterisk)
        obtain ⟨hmodifier, behind, hbehind, hshorter⟩ := modifier_eq found h hrest
        refine Option.bind_eq_some_iff.mpr ⟨_, hmodifier, ?_⟩
        generalize Grammar.modifier Id found p = outcome at hbehind
        obtain ⟨_ | more, q⟩ := outcome
        · rfl
        · exact (again_of_advances (h.advances hbehind hshorter) more).trans (ih more hbehind (by omega))
      · rfl

theorem modifiedOption_eq (context : Context) (h : p.Stands site r) :
    Grammar.modifiedOption Option context p = some (Grammar.modifiedOption Id context p) := by
  have hbudget : r.rest.length ≤ p.budget := h.budget ▸ Nat.le_succ _
  have hnone : Parser.Modify site p.tree {} p {} r := ⟨h, Tree.holdsAll_nil h.source, rfl, rfl⟩
  have hmodifiers := Parser.modifiersWithin_agrees p.budget hnone
  unfold Grammar.modifiedOption
  dsimp only [Course.bind_counted]
  refine Option.bind_eq_some_iff.mpr ⟨_, modifiersWithin_eq {} h hbudget, ?_⟩
  generalize Grammar.modifiersWithin Id p.budget {} p = outcome at hmodifiers
  obtain ⟨_ | found, q⟩ := outcome
  · rfl
  · rcases hmodifiers with ⟨hmissing, -⟩ | ⟨all, behind, -, reading, -, hall⟩
    · cases hmissing
    · dsimp only at hall ⊢
      split
      · rename_i hhash
        have hcreated : (q.createAt (.choiceOption found.reuse found.conditional) p.token.offset).2.Stands site behind :=
          hall.stands.retree hall.stands.source
        exact Option.bind_eq_some_iff.mpr
          ⟨_, optionText_eq (hcreated.adoptAll _ _) ((hall.stands.sees rfl).symm.trans hhash) _, rfl⟩
      · rfl

end Gamebook.Checked
