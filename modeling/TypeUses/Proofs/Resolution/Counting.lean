import TypeUses.Proofs.Resolution.Naming
import TypeUses.Proofs.Tree.Counting

/-!
# Resolution — the statistics are exact

The counters of a finished walk are what one counts in its tree (`statistics_exact`).  References
are counted when they are added, and targets when references are linked: a `goto` when its function
is left, any other reference when the walk is over.

A reference that is still to be linked waits among the pending ones or in a function
(`State.queued`).  `State.Counted` is what every step keeps: the counters are exact, and every
reference that waits does so once and has no target yet.  So a link never replaces a target, and
each one that is made is one more (`exact_link`).
-/

namespace TypeUses

/-- Where targets define the names of their references, they are definitions. -/
theorem Tree.linked_of_linksNamed {t : Tree} (h : t.LinksNamed) : t.Linked := by
  intro id d hd
  obtain ⟨r, hr, htarget⟩ := target?_eq_some_iff.1 hd
  obtain ⟨kind, hdef⟩ := h hr htarget
  exact ⟨_, hdef⟩

namespace Resolution

variable {language : Language} {source : ByteArray}

/-! ### What every step keeps -/

/-- The references that wait to be linked as `goto`s of some functions. -/
def gotosOf (functions : List LabelFrame) : List NodeId :=
  functions.flatMap fun frame => frame.gotos.map Prod.fst

namespace State

/-- The references that wait to be linked. -/
def queued (s : State) : List NodeId := s.pending.map Prod.fst ++ gotosOf s.functions

/-- The counters are those of the tree. -/
structure Exact (s : State) : Prop where
  references : s.references = s.tree.contents.countP Content.isReference
  resolved : s.resolved = s.tree.contents.countP Content.isLinked

/-- The counters are exact, and what waits to be linked is unlinked and waits once. -/
structure Counted (s : State) : Prop extends s.Exact where
  unlinked : ∀ id ∈ s.queued, s.tree.IsUnlinked id
  once : s.queued.Nodup

end State

/-! ### Links -/

/-- **Links keep the counters exact**, if each is from another reference and none has a target. -/
theorem exact_link {s s' : State} {links : List (NodeId × NodeId)} (h : s.link links = .ok s')
    (hs : s.Exact) (hlinks : ∀ l ∈ links, s.tree.IsUnlinked l.1)
    (honce : (links.map Prod.fst).Nodup) : s'.Exact := by
  induction links generalizing s with
  | nil => cases h; exact hs
  | cons l links ih =>
    obtain ⟨reference, definition⟩ := l
    obtain ⟨hnew, honce⟩ := List.nodup_cons.1 honce
    rw [State.link] at h
    split at h
    next tree htree =>
      obtain ⟨hreferences, hlinked⟩ := Tree.countP_of_resolve? htree (hlinks _ List.mem_cons_self)
      refine ih h ⟨hs.references.trans hreferences.symm, ?_⟩ (fun l hl => ?_) honce
      · rw [hlinked, ← hs.resolved]
      · have hmem : l.1 ∈ links.map Prod.fst := List.mem_map_of_mem hl
        exact (hlinks l (List.mem_cons_of_mem _ hl)).resolve? htree fun he => hnew (he ▸ hmem)
    next => cases h

/-- Links are from some of what waits, in this order. -/
theorem map_fst_filterMap_sublist {β : Type} (definition? : NodeId × β → Option NodeId)
    (waiting : List (NodeId × β)) :
    ((waiting.filterMap fun p => (definition? p).map fun d => (p.1, d)).map Prod.fst).Sublist
      (waiting.map Prod.fst) := by
  induction waiting with
  | nil => exact .slnil
  | cons p waiting ih =>
    cases hd : definition? p with
    | none => simpa [hd] using ih.cons p.1
    | some d => simpa [hd] using ih

/-- A function links `goto`s that it has noted, each once. -/
theorem map_fst_links_frame (frame : LabelFrame) :
    (frame.links.map Prod.fst).Sublist (frame.gotos.map Prod.fst).reverse := by
  rw [← List.map_reverse]
  exact map_fst_filterMap_sublist (fun g => frame.labels.lookup g.2) frame.gotos.reverse

/-- What is linked in the end are pending references, each once. -/
theorem map_fst_links_pending (s : State) :
    (s.links.map Prod.fst).Sublist (s.pending.map Prod.fst).reverse := by
  rw [← List.map_reverse]
  exact map_fst_filterMap_sublist (fun p => s.scopes.definition? p.2) s.pending.reverse

/-! ### Adding a node -/

/-- A node that is noted waits if it is a `goto`. -/
theorem gotosOf_noteLabel (functions : List LabelFrame) (id : NodeId) (c : Content) :
    gotosOf (State.noteLabel functions id c) = gotosOf functions ∨
      (∃ spelling target, c = .reference ⟨.label, spelling, target⟩) ∧
        gotosOf (State.noteLabel functions id c) = id :: gotosOf functions := by
  cases functions with
  | nil => exact Or.inl rfl
  | cons frame rest =>
    have htop : State.noteLabel (frame :: rest) id c = frame.note id c :: rest := rfl
    rw [htop]
    rcases frame.note_cases id c with hn | ⟨name, -, hn⟩ | ⟨spelling, target, hc, hn⟩
    · exact Or.inl (by rw [hn])
    · exact Or.inl (by rw [hn]; rfl)
    · exact Or.inr ⟨⟨spelling, target, hc⟩, by rw [hn]; rfl⟩

/-- A node that is added waits at most once, and only if it is a reference. -/
theorem queued_record {s : State} (tree : Tree) {id : NodeId} {f : Frame} {r : Reading}
    (hread : ReadAs source s.scopes id f r) :
    (s.record tree id r).queued = s.queued ∨
      r.content.isReference = true ∧ ((s.record tree id r).queued).Perm (id :: s.queued) := by
  have hnote := gotosOf_noteLabel s.functions id r.content
  cases he : r.entity with
  | some e =>
    obtain ⟨kind, hkind, hc⟩ := hread.entity he
    have hgotos : gotosOf (State.noteLabel s.functions id r.content) = gotosOf s.functions := by
      rcases hnote with hn | ⟨⟨spelling, target, hlabel⟩, -⟩
      · exact hn
      · cases hc.symm.trans hlabel
        exact absurd rfl hkind
    refine Or.inr ⟨by rw [hc]; rfl, List.Perm.of_eq ?_⟩
    simp [State.queued, State.record, he, hgotos]
  | none =>
    rcases hnote with hn | ⟨⟨spelling, target, hlabel⟩, hn⟩
    · left
      simp [State.queued, State.record, he, hn]
    · refine Or.inr ⟨by rw [hlabel]; rfl, ?_⟩
      simp only [State.queued, State.record, he, hn]
      exact List.perm_middle

/-- **An addition keeps the counters exact**, since a reference is read without a target. -/
theorem exact_record {s : State} {tree : Tree} {id : NodeId} {f : Frame} {r : Reading}
    {location : Location} (hs : s.Exact) (hread : ReadAs source s.scopes id f r)
    (htree : s.tree.push? f.parent r.content location = .ok (id, tree)) :
    (s.record tree id r).Exact := by
  have hunlinked : r.content.isLinked = false := by
    cases hc : r.content with
    | reference ref => simp [Content.isLinked, hread.unlinked hc]
    | _ => rfl
  constructor
  · rw [State.tree_record, Tree.contents_of_push? htree, List.countP_append, ← hs.references,
      List.countP_singleton]
    simp only [State.record]
    split <;> rfl
  · rw [State.tree_record, Tree.contents_of_push? htree, List.countP_append, ← hs.resolved,
      List.countP_singleton, hunlinked]
    rfl

/-- A new reference has no target. -/
theorem isUnlinked_record {t tree : Tree} {scopes : Table} {id : NodeId} {f : Frame} {r : Reading}
    {location : Location} (hread : ReadAs source scopes id f r)
    (htree : t.push? f.parent r.content location = .ok (⟨t.size⟩, tree))
    (href : r.content.isReference = true) : tree.IsUnlinked ⟨t.size⟩ := by
  cases hc : r.content with
  | reference ref =>
    exact ⟨ref, by rw [Tree.content?_of_push? htree, if_pos rfl, hc], hread.unlinked hc⟩
  | _ => rw [hc] at href; cases href

theorem counted_add {s s' : State} {f : Frame} {id : NodeId} {outline : Outline} (hs : s.Counted)
    (h : s.add language source f = .ok (s', id, outline)) : s'.Counted := by
  obtain ⟨tree, htree, rfl, -⟩ := add_eq_ok.1 h
  obtain ⟨-, rfl, -⟩ := Tree.push?_eq_ok.1 htree
  have hread := readAs_readNode language source s.scopes ⟨s.tree.size⟩ f
  generalize readNode language source s.scopes ⟨s.tree.size⟩ f = r at hread htree
  have hexact := exact_record hs.toExact hread htree
  have hold : ∀ id ∈ s.queued, tree.IsUnlinked id := fun id hid =>
    (hs.unlinked id hid).mono (Tree.extends_of_push? htree)
  rcases queued_record tree hread with hq | ⟨href, hq⟩
  · exact ⟨hexact, by rw [hq]; exact hold, by rw [hq]; exact hs.once⟩
  · refine ⟨hexact, fun id hid => ?_, ?_⟩
    · rcases List.mem_cons.1 (hq.mem_iff.1 hid) with rfl | hid
      · exact isUnlinked_record hread htree href
      · exact hold id hid
    · -- the node has a number that no other has
      rw [hq.nodup_iff, List.nodup_cons]
      exact ⟨fun hmem => Nat.lt_irrefl _ (hs.unlinked _ hmem).lt, hs.once⟩

/-! ### Entering and leaving scopes -/

theorem counted_enter {s : State} (hs : s.Counted) (entry : ScopeEntry) :
    (s.enter entry).Counted := by
  have hqueued : (s.enter entry).queued = s.queued := by cases entry <;> rfl
  refine ⟨⟨?_, ?_⟩, ?_, ?_⟩
  · rw [tree_enter, ← hs.references]
    cases entry <;> rfl
  · rw [tree_enter, ← hs.resolved]
    cases entry <;> rfl
  · rw [tree_enter, hqueued]
    exact hs.unlinked
  · rw [hqueued]
    exact hs.once

/-- Leaving a scope keeps the counts; a function's `goto`s are linked and counted. -/
theorem counted_leave {s s' : State} {entry : ScopeEntry} (hs : s.Counted)
    (h : s.leave entry = .ok s') : s'.Counted := by
  rcases leave_cases h with ⟨rfl, -⟩ | ⟨frame, rest, -, hf, hlink⟩
  · exact ⟨⟨hs.references, hs.resolved⟩, hs.unlinked, hs.once⟩
  · obtain ⟨hl, hs'⟩ := linked_of_link hlink
    -- what waits is what has waited, without the `goto`s of the function
    have hqueued : s.queued.Perm (frame.gotos.map Prod.fst ++ s'.queued) := by
      rw [hs', State.queued, hf]
      exact List.perm_append_comm_assoc ..
    obtain ⟨hgotos, honce, hother⟩ := List.nodup_append.1 (hqueued.nodup_iff.1 hs.once)
    have hmem : ∀ l ∈ frame.links, l.1 ∈ frame.gotos.map Prod.fst := fun l hmem =>
      List.mem_reverse.1 ((map_fst_links_frame frame).subset (List.mem_map_of_mem hmem))
    have hexact : s'.Exact := by
      refine exact_link hlink ⟨hs.references, hs.resolved⟩ (fun l hlinks => ?_)
        ((map_fst_links_frame frame).nodup (List.nodup_reverse.2 hgotos))
      exact hs.unlinked l.1 (hqueued.mem_iff.2 (List.mem_append_left _ (hmem l hlinks)))
    refine ⟨hexact, fun id hid => ?_, honce⟩
    obtain ⟨r, hr, hnone⟩ := hs.unlinked id (hqueued.mem_iff.2 (List.mem_append_right _ hid))
    have hno : ∀ d, (id, d) ∉ frame.links := fun d hd => hother id (hmem _ hd) id hid rfl
    exact ⟨r, (hl.content_eq hno).trans hr, hnone⟩

/-! ### Steps and runs -/

/-- Every step keeps the counts. -/
theorem counted_perform {s s' : State} {step : Step} {steps : List Step} (hs : s.Counted)
    (h : s.perform language source step = .ok (s', steps)) : s'.Counted := by
  cases step with
  | visit f =>
    obtain ⟨id, outline, hadd, -⟩ := perform_visit_eq_ok.1 h
    exact counted_add hs hadd
  | enter entry => cases h; exact counted_enter hs entry
  | leave entry => exact counted_leave hs (perform_leave_eq_ok.1 h).1

theorem counted_initial (language : Language) (spelling : String) :
    (State.initial language spelling).Counted :=
  ⟨⟨rfl, rfl⟩, nofun, .nil⟩

/-- Every state of the walk over a parse is counted. -/
theorem counted_of_runs {spelling : String} {parse : Concrete.Parse} {s : State} {stack : List Step}
    (h : Runs language source (.initial language spelling) (initialSteps parse) s stack) :
    s.Counted :=
  h.preserves (P := fun s _ => s.Counted) counted_perform (counted_initial language spelling)

/-! ### The tree of a parse -/

section Tree
variable {spelling : String} {parse : Concrete.Parse} {tree : Tree}

/-- The walk from the root comes to the nodes in the order of their numbers. -/
theorem preorder_root_eq_ids (h : Grown source (.empty spelling) tree (places parse)) :
    tree.preorder Tree.rootId = tree.ids := by
  have hsize : tree.size = (places parse).length + 1 := by
    rw [h.size, Nat.add_comm]
    rfl
  rw [preorder_places h, Tree.ids, hsize, List.range_eq_range', List.range'_succ, ← map_id_places,
    List.map_cons, List.map_map]
  rfl

/-- **The statistics are exact.**  The statistics of a tree that is made of a parse count its nodes,
its references and the references that have targets; and these are as many as the uses that are
found from the root for all the names that are defined. -/
theorem statistics_exact {stats : Stats}
    (h : resolveNames language source spelling parse = .ok (tree, stats)) :
    stats.nodes = tree.size ∧
      stats.references = tree.contents.countP Content.isReference ∧
      stats.resolved = tree.contents.countP Content.isLinked ∧
      stats.resolved = ∑ name ∈ tree.definedNames, (tree.findUses name Tree.rootId).length := by
  have hlinked : tree.Linked := Tree.linked_of_linksNamed (linksNamed_resolveNames h)
  have hsum := Tree.countP_isLinked_eq_sum hlinked
    (.of_eq (preorder_root_eq_ids (grown_resolveNames h)))
  obtain ⟨s, hwalk, h⟩ := bind_eq_ok.1 h
  obtain ⟨s', hfinish, h⟩ := bind_eq_ok.1 h
  obtain ⟨rfl, rfl⟩ := Prod.mk.inj (Except.ok.inj h)
  have hs : s.Counted := counted_of_runs (walk_eq_ok_iff.1 hwalk)
  have hpending : (s.pending.map Prod.fst).Nodup := (List.nodup_append.1 hs.once).1
  have hexact : s'.Exact := by
    refine exact_link hfinish hs.toExact (fun l hl => hs.unlinked l.1 ?_)
      ((map_fst_links_pending s).nodup (List.nodup_reverse.2 hpending))
    exact List.mem_append_left _
      (List.mem_reverse.1 ((map_fst_links_pending s).subset (List.mem_map_of_mem hl)))
  exact ⟨rfl, hexact.references, hexact.resolved, hexact.resolved.trans hsum⟩

end Tree

/-- The source `struct P{};struct P f(){a:goto a;}`. -/
def gotoSource : ByteArray := "struct P{};struct P f(){a:goto a;}".toUTF8

/-- Its parse. -/
def gotoParse : Concrete.Parse where
  root := .onLine .translationUnit none 0 34
    [.onLine .structSpecifier none 0 10
      [.onLine .typeIdentifier (some .name) 7 8 [],
        .onLine (.other "field_declaration_list") (some .body) 8 10 []],
      .onLine .functionDefinition none 11 34
        [.onLine .structSpecifier (some .type) 11 19
            [.onLine .typeIdentifier (some .name) 18 19 []],
          .onLine (.other "function_declarator") (some .declarator) 20 23 [],
          .onLine .compoundStatement (some .body) 23 34
            [.onLine .labeledStatement none 24 33
              [.onLine .statementIdentifier (some .label) 24 25 [],
                .onLine (.other "goto_statement") none 26 33
                  [.onLine .statementIdentifier (some .label) 31 32 []]]]]]
  hasError := false

/-- A tag is linked at the end and a `goto` before: two references, both with targets, and one use
for each of the two names. -/
theorem statistics_exact_goto : ∃ tree stats,
    resolveNames .c gotoSource "a.c" gotoParse = .ok (tree, stats) ∧
      stats.references = 2 ∧ stats.resolved = 2 ∧
      tree.contents.countP Content.isLinked = 2 ∧
      (tree.findUses "P" Tree.rootId).length = 1 ∧ (tree.findUses "a" Tree.rootId).length = 1 ∧
      stats.resolved = ∑ name ∈ tree.definedNames, (tree.findUses name Tree.rootId).length := by
  have hvalue : (resolveNames .c gotoSource "a.c" gotoParse).toOption.map (fun r =>
      (r.2.references, r.2.resolved, (r.1.findUses "P" Tree.rootId).length,
        (r.1.findUses "a" Tree.rootId).length)) = some (2, 2, 1, 1) := by decide +kernel
  obtain ⟨⟨tree, stats⟩, h, hvalue⟩ := exists_ok_of_map hvalue
  simp only [Prod.mk.injEq] at hvalue
  obtain ⟨hreferences, htwo, hp, ha⟩ := hvalue
  obtain ⟨-, -, hresolved, hsum⟩ := statistics_exact h
  exact ⟨tree, stats, h, hreferences, htwo, hresolved.symm.trans htwo, hp, ha, hsum⟩

end Resolution

end TypeUses
