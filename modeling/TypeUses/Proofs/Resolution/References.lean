import TypeUses.Proofs.Resolution.Counting
import TypeUses.Proofs.Resolution.Extension
import TypeUses.Proofs.Resolution.Reads

/-!
# Resolution — what becomes of a reference

A node that does not wait to be linked is settled: the rest of the walk leaves it as it is
(`settled_of_runs`), and so do the links at the end (`settled_finish`).  A reference that is no label's
waits exactly if it means an entity when it is read, and its target is in the end what defines that
entity (`reference_of_readAt`).
-/

namespace TypeUses.Resolution

variable {language : Language} {source : ByteArray}

/-! ### What is settled -/

/-- What does not wait to be linked stays as it is, and does not wait later. -/
theorem settled_perform {s s' : State} {step : Step} {steps : List Step} {id : NodeId} {c : Content}
    (hc : s.tree.content? id = some c) (hqueued : id ∉ s.queued)
    (h : s.perform language source step = .ok (s', steps)) :
    s'.tree.content? id = some c ∧ id ∉ s'.queued := by
  have hlt := Tree.lt_size_of_content? hc
  cases step with
  | visit f =>
      obtain ⟨id', outline, hadd, -⟩ := perform_visit_eq_ok.1 h
      refine ⟨((follows_add hadd).tree.content id hlt).trans hc, ?_⟩
      obtain ⟨tree, htree, rfl, -⟩ := add_eq_ok.1 hadd
      obtain ⟨-, rfl, -⟩ := Tree.push?_eq_ok.1 htree
      rcases queued_record tree (readAs_readNode language source s.scopes ⟨s.tree.size⟩ f) with
        hq | ⟨-, hq⟩
      · rwa [hq]
      · rw [hq.mem_iff, List.mem_cons, not_or]
        exact ⟨fun he => Nat.lt_irrefl _ (he ▸ hlt), hqueued⟩
  | enter entry =>
      cases h
      refine ⟨by rwa [tree_enter], ?_⟩
      have hq : (s.enter entry).queued = s.queued := by cases entry <;> rfl
      rwa [hq]
  | leave entry =>
      rcases leave_cases (perform_leave_eq_ok.1 h).1 with ⟨rfl, -⟩ | ⟨frame, rest, -, hf, hlink⟩
      · exact ⟨hc, hqueued⟩
      · obtain ⟨hl, hs'⟩ := linked_of_link hlink
        -- what no longer waits are `goto`s of the function that is left
        have hsub : ∀ x ∈ s'.queued, x ∈ s.queued := by
          intro x hx
          rw [hs', State.queued] at hx
          rw [State.queued, hf]
          rcases List.mem_append.1 hx with hx | hx
          · exact List.mem_append_left _ hx
          · exact List.mem_append_right _ (List.mem_append_right _ hx)
        refine ⟨?_, fun hmem => hqueued (hsub id hmem)⟩
        rw [← hc]
        refine hl.content_eq fun d hd => hqueued ?_
        obtain ⟨name, hg, -⟩ := LabelFrame.mem_links.1 hd
        rw [State.queued, hf]
        exact List.mem_append_right _ (List.mem_append_left _ (List.mem_map_of_mem hg))

/-- A node that does not wait to be linked keeps its content, and never comes to wait. -/
theorem settled_of_runs {s s' : State} {stack stack' : List Step} {id : NodeId} {c : Content}
    (hc : s.tree.content? id = some c) (hqueued : id ∉ s.queued)
    (h : Runs language source s stack s' stack') :
    s'.tree.content? id = some c ∧ id ∉ s'.queued :=
  h.preserves (P := fun s _ => s.tree.content? id = some c ∧ id ∉ s.queued)
    (fun ⟨hc, hqueued⟩ hstep => settled_perform hc hqueued hstep) ⟨hc, hqueued⟩

/-- In the end what does not wait is what it was. -/
theorem settled_finish {s s' : State} {id : NodeId} (hqueued : id ∉ s.queued)
    (h : s.finish = .ok s') : s'.tree.content? id = s.tree.content? id :=
  content?_of_not_pending h fun _ hp =>
    hqueued (List.mem_append_left _ (List.mem_map_of_mem hp))

/-! ### References -/

/-- What is neither a label's nor means an entity does not wait when it is read. -/
theorem queued_record_of_none {s : State} (tree : Tree) (id : NodeId) {r : Reading}
    (hentity : r.entity = none)
    (hlabel : ∀ spelling target, r.content ≠ .reference ⟨.label, spelling, target⟩) :
    (s.record tree id r).queued = s.queued := by
  rcases gotosOf_noteLabel s.functions id r.content with hn | ⟨⟨spelling, target, hc⟩, -⟩
  · simp only [State.queued, State.record, hentity, hn]
  · exact absurd hc (hlabel spelling target)

/-- **What becomes of a reference** that is no label's.  It waits to be linked if and only if it means
an entity when it is read, and in the end its target is what defines that entity. -/
theorem reference_of_readAt {spelling : String} {parse : Concrete.Parse} {s sf s' : State}
    {p : Place} {context : Context}
    (hread : p.ReadAt language source spelling parse s context)
    (hwalk : walk language source (.initial language spelling) (initialSteps parse) = .ok sf)
    (hfinish : sf.finish = .ok s') {kind : ReferenceKind} {name : String} {e : Option EntityId}
    (hkind : kind ≠ .label) {scopes : Table}
    (hr : p.reading language source s context = .ofReference scopes kind name e) :
    s'.tree.content? p.id = some (.reference ⟨kind, name, e.bind sf.scopes.definition?⟩) ∧
      ∀ x, (p.id, x) ∈ sf.pending ↔ e = some x := by
  have hsound := (sound_of_parse (walk_eq_ok_iff.1 hwalk)).1
  obtain ⟨rest, hruns⟩ := hread.runs
  obtain ⟨s₁, id, outline, hadd, -, hrest⟩ := walk_visit_cons_eq_ok (hruns.walk_eq ▸ hwalk)
  obtain ⟨rfl, -⟩ := size_add hadd
  obtain ⟨tree, htree, rfl, -⟩ := add_eq_ok.1 hadd
  have hr : readNode language source s.scopes ⟨s.tree.size⟩ ⟨p.node, p.outer, p.parent, context⟩ =
    .ofReference scopes kind name e := hr
  rw [hr] at htree hrest
  have hrest := walk_eq_ok_iff.1 hrest
  have hnew : tree.content? ⟨s.tree.size⟩ = some (.reference ⟨kind, name, none⟩) := by
    rw [Tree.content?_of_push? htree, if_pos rfl]
    rfl
  rw [← hread.id]
  cases e with
  | none =>
      -- the reference does not wait, and stays as it was added
      have hfree : (⟨s.tree.size⟩ : NodeId) ∉
          (s.record tree ⟨s.tree.size⟩ (.ofReference scopes kind name none)).queued := by
        rw [queued_record_of_none tree _ rfl fun spelling target he =>
          hkind (congrArg Reference.kind (Content.reference.inj he))]
        exact fun hmem => Nat.lt_irrefl _ ((counted_of_runs hruns).unlinked _ hmem).lt
      obtain ⟨hcf, hfree⟩ := settled_of_runs hnew hfree hrest
      refine ⟨(settled_finish hfree hfinish).trans hcf, fun x => ⟨fun hp => ?_, nofun⟩⟩
      exact absurd (List.mem_append_left _ (List.mem_map_of_mem hp)) hfree
  | some e =>
      -- the reference waits until it is linked in the end
      have hpending := pending_of_runs hrest (State.mem_pending_record_self rfl)
      have htarget := target?_of_pending hsound hfinish hpending
      have hgrows := (grows_of_runs hrest).2.trans (linked_of_link hfinish).1.grows
      obtain ⟨target, hcf⟩ := hgrows.reference hnew
      rw [Tree.target?, Tree.reference?, hcf] at htarget
      refine ⟨by rw [hcf, Option.bind_some, ← htarget]; rfl, fun x => ⟨fun hp => ?_, ?_⟩⟩
      · rw [hsound.pending_unique hp hpending]
      · rintro ⟨⟩
        exact hpending

end TypeUses.Resolution
