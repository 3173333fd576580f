import Gamebook.Proofs.Parser.Stands
import Gamebook.Proofs.Parser.Stored

/-!
Nodes and phrases of a line. While a parser and a reader work on a line, the phrase that the reader puts
together is in the tree of the parser, its own node still without a parent; offsets of phrases count from the
start of the line. What is done to the node is what is done to the phrase.
-/

namespace Gamebook

namespace Phrase

mutual

theorem count_shift (distance : Nat) : (phrase : Phrase) → (phrase.shift distance).count = phrase.count
  | ⟨kind, start, stop, issues, before, after⟩ => by
      rw [shift, count, count, countAll_shiftAll distance before, countAll_shiftAll distance after]

theorem countAll_shiftAll (distance : Nat) : (phrases : List Phrase) →
    countAll (shiftAll distance phrases) = countAll phrases
  | [] => by rw [shiftAll]
  | phrase :: more => by rw [shiftAll, countAll, countAll, count_shift distance phrase, countAll_shiftAll distance more]

end

theorem shift_flagWhole (distance : Nat) (phrase : Phrase) (rule : Rule) :
    (phrase.flagWhole rule).shift distance = (phrase.shift distance).flagWhole rule := by
  have hlength : (phrase.shift distance).length = phrase.length := by
    rw [length, shift_start, shift_stop, Nat.add_sub_add_right, length]
  rw [flagWhole, shift_flag, flagWhole, shift_start, hlength]

theorem countAll_map_shift (distance : Nat) (phrases : List Phrase) :
    countAll (phrases.map (shift distance)) = countAll phrases := by
  rw [← shiftAll_eq_map, countAll_shiftAll]

theorem shift_addAll (distance : Nat) (phrase : Phrase) (parts : List Phrase) :
    (phrase.addAll parts).shift distance = (phrase.shift distance).addAll (parts.map (shift distance)) := by
  induction parts generalizing phrase with
  | nil => rw [addAll_nil, List.map_nil, addAll_nil]
  | cons part more ih => rw [addAll_cons, ih, shift_add, List.map_cons, addAll_cons]

theorem shift_around (distance : Nat) (kind : Kind) (offset : Nat) (parts : List Phrase) :
    (around kind offset parts).shift distance = around kind (offset + distance) (parts.map (shift distance)) := by
  rw [around_eq_settled, shift_settled, shift_addAll, shift_empty, ← around_eq_settled]

end Phrase

/-- A range on the line that a marker is put on ends with the content or before, or the phrase covers it as it
is. -/
def Site.Bears (site : Site) (phrase : Phrase) (offset length : Nat) : Prop :=
  site.line.start + offset + length ≤ site.line.contentEnd ∨ (phrase.start ≤ offset ∧ offset + length ≤ phrase.stop)

theorem Site.Bears.shift {site : Site} {phrase : Phrase} {offset length : Nat} (h : site.Bears phrase offset length) :
    (phrase.shift site.line.start).Bears (Text.bytes site.source) (site.line.start + offset) length := by
  have hstop := site.within.stop_le
  have hend : site.line.contentEnd ≤ site.line.stop := Nat.le_add_right _ _
  have hlast := le_lastOffset (Text.bytes site.source)
  rw [Phrase.Bears, Phrase.shift_start, Phrase.shift_stop]
  exact h.imp (fun hfits => by omega) fun hcovers => ⟨by omega, by omega⟩

namespace Tree

/-- The node is that of a phrase of the line which is still open, in a tree that goes on from an older one. -/
structure Holds (site : Site) (tree old : Tree) (phrase : Phrase) (id : Nat) : Prop where
  stores : tree.Stores site.levels old (phrase.shift site.line.start)
  id : id = old.size + Phrase.countAll phrase.before
  onSource : old.source = site.source

variable {site : Site} {old mid tree : Tree} {phrase part : Phrase} {id partId : Nat}

theorem Holds.source (h : tree.Holds site old phrase id) : tree.source = site.source :=
  h.stores.split.source.trans h.onSource

theorem Holds.entry_id (h : tree.Holds site old phrase id) : (old.entry (phrase.shift site.line.start)).id = id := by
  rw [h.id, TreeEntry.id, Phrase.idFrom, entry, Phrase.shift_before, Phrase.countAll_map_shift]

theorem Holds.node? (h : tree.Holds site old phrase id) : ∃ node, tree.node? id = some node ∧
    node.kind = phrase.kind ∧ node.offset = site.line.start + phrase.start ∧ node.length = phrase.length := by
  have hnode := h.stores.split.node?
  rw [h.entry_id] at hnode
  refine ⟨_, hnode, Phrase.shift_kind _ _, ?_, ?_⟩
  · exact (Phrase.shift_start _ _).trans (Nat.add_comm _ _)
  · show (phrase.shift site.line.start).stop - (phrase.shift site.line.start).start = phrase.length
    rw [Phrase.shift_start, Phrase.shift_stop, Nat.add_sub_add_right, Phrase.length]

theorem holds_create (hsource : tree.source = site.source) (kind : Kind) (offset : Nat) :
    (tree.create kind (site.line.start + offset)).2.Holds site tree (.empty kind offset)
      (tree.create kind (site.line.start + offset)).1 := by
  have hstores := stores_create site.levels tree kind (site.line.start + offset)
  rw [Nat.add_comm, ← Phrase.shift_empty] at hstores
  rw [Nat.add_comm]
  exact ⟨hstores, rfl, hsource⟩

theorem Holds.reach (h : tree.Holds site old phrase id) (stop : Nat) :
    (tree.reach id (site.line.start + stop)).Holds site old (phrase.reach stop) id := by
  have hreached := h.stores.reach (site.line.start + stop)
  rw [h.entry_id, Nat.add_comm, ← Phrase.shift_reach] at hreached
  rw [Nat.add_comm]
  exact ⟨hreached, h.id, h.onSource⟩

theorem Holds.setKind (h : tree.Holds site old phrase id) (kind : Kind) :
    (tree.modify id fun node => { node with kind }).Holds site old { phrase with kind } id := by
  have hset := h.stores.setKind kind
  rw [h.entry_id] at hset
  refine ⟨?_, h.id, h.onSource⟩
  cases phrase
  exact hset

/-- A marker for a rule that cannot be switched off. -/
theorem Holds.mark (h : tree.Holds site old phrase id) {rule : Rule} (hrule : site.levels.of rule ≠ .ignore)
    {offset length : Nat} (hbears : site.Bears phrase offset length) :
    (tree.mark id (.ofRule rule (site.levels.of rule) id (site.line.start + offset) length)).Holds site old
      (phrase.flag rule offset length) id := by
  have hmarked := h.stores.mark hrule (h.onSource ▸ hbears.shift)
  rw [h.entry_id, Nat.add_comm, ← Phrase.shift_flag] at hmarked
  rw [Nat.add_comm]
  exact ⟨hmarked, h.id, h.onSource⟩

theorem Holds.silent (h : tree.Holds site old phrase id) {rule : Rule} (hrule : site.levels.of rule = .ignore) :
    tree.Holds site old (phrase.flagWhole rule) id := by
  have hsilent := h.stores.silent hrule
  rw [← Phrase.shift_flagWhole] at hsilent
  exact ⟨hsilent, h.id, h.onSource⟩

theorem Holds.add (h : mid.Holds site old phrase id) (hpart : tree.Holds site mid part partId) :
    (tree.adopt id partId none).Holds site old (phrase.add part) id := by
  have hadded := h.stores.add hpart.stores
  rw [h.entry_id, hpart.entry_id, ← Phrase.shift_add] at hadded
  exact ⟨hadded, h.id, h.onSource⟩

/-- The nodes are those of phrases of the line that follow each other. -/
structure HoldsAll (site : Site) (tree old : Tree) (phrases : List Phrase) (ids : List Nat) : Prop where
  lists : tree.Lists site.levels old (phrases.map (Phrase.shift site.line.start))
  ids : ids = Phrase.idsFrom old.size (phrases.map (Phrase.shift site.line.start))
  onSource : old.source = site.source

variable {phrases : List Phrase} {ids : List Nat}

theorem holdsAll_nil (hsource : tree.source = site.source) : tree.HoldsAll site tree [] [] :=
  ⟨lists_nil _ _, rfl, hsource⟩

theorem HoldsAll.snoc (h : mid.HoldsAll site old phrases ids) (hlast : tree.Holds site mid phrase id) :
    tree.HoldsAll site old (phrases ++ [phrase]) (ids ++ [id]) := by
  refine ⟨?_, ?_, h.onSource⟩
  · rw [List.map_append]
    exact h.lists.snoc hlast.stores
  · rw [List.map_append, Phrase.idsFrom_append, ← h.lists.size, ← h.ids, ← hlast.entry_id]
    rfl

/-- A node is made around nodes that were there before it. -/
theorem HoldsAll.around (h : mid.HoldsAll site old phrases ids) (kind : Kind) (offset : Nat) :
    (ids.foldl (fun tree child => tree.adopt (mid.create kind (site.line.start + offset)).1 child none)
      (mid.create kind (site.line.start + offset)).2).Holds site old (.around kind offset phrases)
        (mid.create kind (site.line.start + offset)).1 := by
  have haround := h.lists.around kind (site.line.start + offset)
  rw [← h.ids, Nat.add_comm, ← Phrase.shift_around] at haround
  rw [Nat.add_comm]
  refine ⟨haround, ?_, h.onSource⟩
  rw [← Phrase.countAll_map_shift site.line.start]
  exact h.lists.size

/-- A node is made around a node that was there before it. -/
theorem Holds.around (h : tree.Holds site old phrase id) (kind : Kind) (offset : Nat) :
    ((tree.create kind (site.line.start + offset)).2.adopt (tree.create kind (site.line.start + offset)).1 id none).Holds
      site old (.around kind offset [phrase]) (tree.create kind (site.line.start + offset)).1 := by
  have haround := ((holdsAll_nil h.onSource).snoc h).around kind offset
  rw [List.nil_append, List.nil_append, List.foldl_cons, List.foldl_nil] at haround
  exact haround

end Tree

namespace Parser

variable {site : Site} {old : Tree} {p q : Parser} {r behind : Reader} {phrase part : Phrase} {id child : Nat}

/-- The nodes in the tree of a parser say nothing about where it stands. -/
theorem Stands.retree (h : p.Stands site r) {tree : Tree} (hsource : tree.source = site.source) :
    ({ p with tree } : Parser).Stands site r :=
  ⟨h.onSource, hsource, h.levels, h.place, h.trimmed, h.plain, h.looks⟩

theorem Reads.retree (h : p.Reads site r) {tree : Tree} (hsource : tree.source = site.source) :
    ({ p with tree } : Parser).Reads site r :=
  ⟨h.toStands.retree hsource, h.previous, h.ordered⟩

/-- A parser has made a node, and a reader has read the phrase of that node. -/
structure Agrees (site : Site) (old : Tree) (id : Nat) (p : Parser) (phrase : Phrase) (r : Reader) : Prop where
  reads : p.Reads site r
  holds : p.tree.Holds site old phrase id

theorem Reads.agrees (h : p.Reads site r) {tree : Tree} (hholds : tree.Holds site old phrase id) :
    Agrees site old id { p with tree } phrase r := ⟨h.retree hholds.source, hholds⟩

/-- The outcome of a rule agrees with that of a reading. -/
abbrev Accords (site : Site) (old : Tree) (made : Nat × Parser) (read : Phrase × Reader) : Prop :=
  Agrees site old made.1 made.2 read.1 read.2

theorem Reads.createAt (h : p.Reads site r) (kind : Kind) (offset : Nat) :
    Accords site p.tree (p.createAt kind (site.line.start + offset)) (.empty kind offset, r) :=
  h.agrees (Tree.holds_create h.source kind offset)

theorem Stands.holds_create (h : p.Stands site r) (kind : Kind) :
    (p.create kind).2.tree.Holds site p.tree (.begin kind r) (p.create kind).1 := by
  rw [Parser.create, h.offset]
  exact Tree.holds_create h.source kind r.offset

theorem Stands.create (h : p.Stands site r) (kind : Kind) : (p.create kind).2.Stands site r := h.retree h.source

theorem Reads.create (h : p.Reads site r) (kind : Kind) : Accords site p.tree (p.create kind) (.begin kind r, r) :=
  h.agrees (h.holds_create kind)

/-- A node is made, and the token before it is taken. -/
theorem Stands.begin (h : p.Stands site r) (hrest : r.rest ≠ []) (kind : Kind) :
    Agrees site p.tree (p.create kind).1 (p.create kind).2.next (.begin kind r) r.next :=
  ⟨(h.create kind).next hrest, h.holds_create kind⟩

theorem Reads.finish_eq (h : p.Reads site r) (id : Nat) :
    p.finish id = { p with tree := p.tree.reach id (site.line.start + r.lastEnd) } := by
  obtain ⟨token, htoken, hstop⟩ := Option.map_eq_some_iff.mp h.previous
  rw [Parser.finish, htoken, ← hstop]

theorem Agrees.finish (h : Agrees site old id p phrase r) : Agrees site old id (p.finish id) (phrase.finish r) r := by
  rw [h.reads.finish_eq]
  exact h.reads.agrees (h.holds.reach r.lastEnd)

theorem Stands.leaf (h : p.Stands site r) (hrest : r.rest ≠ []) (kind : Kind) :
    Accords site p.tree (p.leaf kind) (r.leaf kind) := (h.begin hrest kind).finish

theorem Agrees.setKind (h : Agrees site old id p phrase r) (kind : Kind) :
    Agrees site old id (p.setKind id kind) { phrase with kind } r := h.reads.agrees (h.holds.setKind kind)

theorem Agrees.flag_of_reported (h : Agrees site old id p phrase r) {rule : Rule}
    (hreported : site.levels.of rule ≠ .ignore) {offset length : Nat} (hbears : site.Bears phrase offset length) :
    Agrees site old id (p.flag id rule (site.line.start + offset) length) (phrase.flag rule offset length) r := by
  have hmarked := h.holds.mark hreported hbears
  rw [← h.reads.levels] at hreported hmarked
  rw [Parser.flag, if_neg hreported]
  exact h.reads.agrees hmarked

theorem Agrees.flag (h : Agrees site old id p phrase r) {rule : Rule} (hrule : rule.isSettable = false)
    {offset length : Nat} (hbears : site.Bears phrase offset length) :
    Agrees site old id (p.flag id rule (site.line.start + offset) length) (phrase.flag rule offset length) r := by
  refine h.flag_of_reported ?_ hbears
  rw [site.levels.of_eq_error hrule]
  decide

/-- A rule that marks the whole node may be switched off: nothing shows then. -/
theorem Agrees.flagWhole (h : Agrees site old id p phrase r) (rule : Rule) :
    Agrees site old id (p.flagWhole id rule) (phrase.flagWhole rule) r := by
  obtain ⟨node, hnode, -, hoffset, hlength⟩ := h.holds.node?
  have hflag : p.flagWhole id rule = p.flag id rule (site.line.start + phrase.start) phrase.length := by
    rw [Parser.flagWhole, hnode]
    dsimp only
    rw [hoffset, hlength]
  rw [hflag]
  by_cases hreported : site.levels.of rule = .ignore
  · have hignored : p.levels.of rule = .ignore := by rwa [h.reads.levels]
    rw [Parser.flag, if_pos hignored]
    exact ⟨h.reads, h.holds.silent hreported⟩
  · have hordered := h.holds.stores.ordered
    rw [Phrase.shift_start, Phrase.shift_stop] at hordered
    exact h.flag_of_reported hreported (.inr ⟨Nat.le_refl _, by rw [Phrase.length]; omega⟩)

theorem Agrees.complain (h : Agrees site old id p phrase r) (rule : Rule) (hrule : rule.isSettable = false) :
    Agrees site old id (p.complain id rule) (phrase.complain rule r) r := by
  rw [Parser.complain, h.reads.offset, h.reads.length]
  refine h.flag hrule (.inl ?_)
  rw [Nat.add_assoc]
  exact h.reads.ahead_le r.ahead_textEnd

theorem tree_adopt (p : Parser) (parent child : Nat) : (p.adopt parent child).tree = p.tree.adopt parent child none := by
  rw [Parser.adopt]

/-- A node that was made behind an open one is put below it. -/
theorem Agrees.below (hpart : Agrees site p.tree child q part behind) (h : p.tree.Holds site old phrase id) :
    Agrees site old id (q.adopt id child) (phrase.add part) behind := by
  rw [Parser.adopt]
  exact hpart.reads.agrees (h.add hpart.holds)

theorem Agrees.adopt (h : Agrees site old id p phrase r) (hpart : Agrees site p.tree child q part behind) :
    Agrees site old id (q.adopt id child) (phrase.add part) behind := hpart.below h.holds

/-- A node is made around another one that begins with the next token. -/
theorem Stands.wrap (h : p.Stands site r) (kind : Kind) (hpart : Agrees site (p.create kind).2.tree child q part behind) :
    Agrees site p.tree (p.create kind).1 (q.adopt (p.create kind).1 child) ((Phrase.begin kind r).add part) behind :=
  hpart.below (h.holds_create kind)

theorem Agrees.around (h : Agrees site old child p part r) (kind : Kind) (offset : Nat) :
    Agrees site old (p.createAt kind (site.line.start + offset)).1
      ((p.createAt kind (site.line.start + offset)).2.adopt (p.createAt kind (site.line.start + offset)).1 child)
      (.around kind offset [part]) r := by
  rw [Parser.adopt]
  exact h.reads.agrees (h.holds.around kind offset)

theorem tree_skipWithin (test : TokenKind → Bool) (budget : Nat) (p : Parser) :
    (Grammar.skipWithin Id test budget p).tree = p.tree := by
  induction budget generalizing p with
  | zero => rfl
  | succ budget ih =>
      rw [Grammar.skipWithin, Course.counted_succ]
      split
      · rfl
      · exact ih p.next

theorem tree_switch (p : Parser) (mode : Mode) : (p.switch mode).tree = p.tree := by
  unfold Parser.switch
  split
  · rfl
  · split <;> rfl

theorem Agrees.next (h : Agrees site old id p phrase r) (hrest : r.rest ≠ []) :
    Agrees site old id p.next phrase r.next := ⟨h.reads.next hrest, h.holds⟩

theorem Agrees.switch (h : Agrees site old id p phrase r) (mode : Mode) :
    Agrees site old id (p.switch mode) phrase (r.switch mode) :=
  ⟨h.reads.switch mode, (tree_switch p mode).symm ▸ h.holds⟩

theorem Agrees.skipTo (h : Agrees site old id p phrase r) (test : TokenKind → Bool) :
    Agrees site old id (Grammar.skipTo Id test p) phrase (r.skipTo test) :=
  ⟨h.reads.skipTo test, (tree_skipWithin test _ p).symm ▸ h.holds⟩

/-- Both take a sign, or both find something else in its place. -/
theorem Agrees.accepts (h : Agrees site old id p phrase r) (kind : TokenKind) (hkind : kind.endsLine = false) :
    (r.sees kind = true ∧ p.accept kind = (true, p.next) ∧ r.accept kind = (true, r.next) ∧
        Agrees site old id p.next phrase r.next) ∨
      (r.sees kind = false ∧ p.accept kind = (false, p) ∧ r.accept kind = (false, r)) := by
  rcases h.reads.accept kind hkind with ⟨hsees, hp, hr, hnext⟩ | hother
  · exact .inl ⟨hsees, hp, hr, hnext, h.holds⟩
  · exact .inr hother

theorem Agrees.accept (h : Agrees site old id p phrase r) (kind : TokenKind) (hkind : kind.endsLine = false) :
    (p.accept kind).1 = (r.accept kind).1 ∧ Agrees site old id (p.accept kind).2 phrase (r.accept kind).2 := by
  rcases h.accepts kind hkind with ⟨-, hp, hr, hnext⟩ | ⟨-, hp, hr⟩
  · rw [hp, hr]
    exact ⟨rfl, hnext⟩
  · rw [hp, hr]
    exact ⟨rfl, h⟩

theorem Agrees.close (h : Agrees site old id p phrase r) (kind : TokenKind) (rule : Rule)
    (hkind : kind.endsLine = false) (hrule : rule.isSettable = false) :
    (Grammar.close Id id kind rule p).1 = (phrase.close kind rule r).1 ∧
      Agrees site old id (Grammar.close Id id kind rule p).2 (phrase.close kind rule r).2.1
        (phrase.close kind rule r).2.2 := by
  rw [Grammar.close, Phrase.close]
  rcases h.accepts kind hkind with ⟨-, hp, hr, hnext⟩ | ⟨-, hp, hr⟩
  · rw [hp, hr]
    exact ⟨rfl, hnext⟩
  · rw [hp, hr]
    exact ⟨rfl, (h.skipTo _).complain rule hrule⟩

/-- A rule that may apply has made what a reading recognises, or nothing was recognised and it is at the
same place. -/
inductive MayAgree (site : Site) (p : Parser) (r : Reader) : Option Nat × Parser → Option Phrase × Reader → Prop
  | none : MayAgree site p r (none, p) (none, r)
  | made {id : Nat} {q : Parser} {phrase : Phrase} {behind : Reader} (h : Agrees site p.tree id q phrase behind) :
      MayAgree site p r (some id, q) (some phrase, behind)

/-- The rule does on tokens what the reading does. -/
def Refines (site : Site) (rule : Parsing) (reading : Reading) : Prop :=
  ∀ ⦃p : Parser⦄ ⦃r : Reader⦄, p.Reads site r → MayAgree site p r (rule p) (reading r)

/-- A part is put into its place, or its absence is marked there. -/
theorem Agrees.adoptOr (h : Agrees site old id p phrase r) {outcome : Option Nat × Parser}
    {found : Option Phrase × Reader} (hpart : MayAgree site p r outcome found) (rule : Rule)
    (hrule : rule.isSettable = false) :
    Agrees site old id (outcome.2.adoptOr id outcome.1 rule) (phrase.addOr found.1 rule found.2) found.2 := by
  cases hpart with
  | none => exact h.complain rule hrule
  | made hpart => exact h.adopt hpart

end Parser

end Gamebook
