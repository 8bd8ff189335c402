import TypeUses.Proofs.Resolution.Tables
import TypeUses.Proofs.Resolution.Visits
import TypeUses.Proofs.Scope.Body
import TypeUses.Proofs.Scope.Shut

/-!
# Resolution — references behind a scope

When the walk has left a scope that a node opened, all scopes that were made in it are shut
(`passes_of_passage`), and they stay shut to the end (`shut_of_runs`).  So a reference to what is bound
in one of them is read while the walk is inside, if a reference that is read later cannot find it
(`Passes.id_bounds_of_read`).
-/

namespace TypeUses.Resolution

variable {language : Language} {source : ByteArray}

/-- An entity that a node refers to is bound in a scope that satisfies `P`, if what is looked up is,
and if all scopes in which a name can be bound satisfy `P`. -/
theorem ReadAs.holds {t : Table} {id : NodeId} {f : Frame} {r : Reading} {P : ScopeId → Prop}
    (h : ReadAs source t id f r) (ht : t.Standing) {e : EntityId} (he : r.entity = some e)
    (hlookup : ∀ spaces name, t.lookup spaces name f.context.lookup = some e →
      ∃ x, P x ∧ t.Holds x e)
    (hinnermost : ∀ accept, P (t.innermost accept)) : ∃ x, P x ∧ r.scopes.Holds x e := by
  cases h with
  | plain | defines | binds | declares => cases he
  | refers _ hentity =>
      obtain ⟨spaces, hl⟩ := (hentity e he).found
      exact hlookup _ _ hl
  | introduces _ _ hanswer =>
      cases he
      obtain ⟨b, -, hholds⟩ := Table.holds_of_answer ht hanswer
      exact ⟨_, hinnermost b.accepts, hholds⟩
  | uses hmeans =>
      cases he
      obtain ⟨spaces, hl⟩ := hmeans.found
      obtain ⟨x, hx, hholds⟩ := hlookup _ _ hl
      exact ⟨x, hx, hholds.grows (Table.keeps_perform _ _)⟩

section Parse
variable {spelling : String} {parse : Concrete.Parse} {s s' : State} {stack rest : List Step}

/-! ### Leaving a scope -/

/-- The scopes that are made between two states. -/
def State.Between (s s' : State) (x : ScopeId) : Prop := s.scopes.MadeSince s'.scopes x

/-- The entities whose members lie in scopes that are made between two states. -/
def State.MembersBetween (s s' : State) (e : EntityId) : Prop :=
  ∃ x, s.Between s' x ∧ s'.scopes.members? e = some x

/-- The steps on the stack enter no members in scopes of `X`. -/
def EntersNone (X : ScopeId → Prop) (t : Table) (stack : List Step) : Prop :=
  ∀ e kind, .enter (.members e kind) ∈ stack → ∀ x, t.members? e = some x → ¬ X x

/-- In state `s` the walk is about to enter a scope, and in state `s'` it has left it, and all that was
made in it is shut. -/
structure Passes (language : Language) (source : ByteArray) (spelling : String)
    (parse : Concrete.Parse) (s s' : State) (stack rest : List Step) : Prop where
  enters : Runs language source (.initial language spelling) (initialSteps parse) s stack
  crosses : Runs language source s stack s' rest
  shut : s'.scopes.Shut (s.Between s') (s.MembersBetween s')
  free : EntersNone (s.Between s') s'.scopes rest

/-- The walk gets to the end of what it passes through. -/
theorem Passes.exits (h : Passes language source spelling parse s s' stack rest) :
    Runs language source (.initial language spelling) (initialSteps parse) s' rest :=
  h.enters.trans h.crosses

/-- **When a scope is left, all that was made in it is shut**, if the members that lie there are
those of entities which the node or what is below it defines, and which nothing outside defines. -/
theorem passes_of_passage {f : Frame} {o : Opening} {front inside : List Concrete.Node}
    {s₀ s₁ s₂ : State}
    (hruns : Runs language source (.initial language spelling) (initialSteps parse) s₀
      (.visit f :: rest))
    (passage : Passage language source f o front inside rest s₀ s₁ s s₂ s')
    (hactive : s'.scopes.active = s.scopes.active)
    (hmembers : ∀ e x, s'.scopes.members? e = some x → s.scopes.NewScope x →
      s.scopes.BarredFrom s₀.tree.size s'.scopes e) :
    ∃ stack, Passes language source spelling parse s s' stack rest := by
  obtain ⟨hsound₀, -⟩ := sound_of_parse hruns
  obtain ⟨-, hstack₀⟩ := placed_of_runs hruns
  refine ⟨_, hruns.trans passage.enters, passage.crosses, ?_, ?_⟩
  · exact Table.shut_madeSince (sound_of_parse (hruns.trans passage.enters)).1.present
      (grows_of_runs passage.crosses).1 hactive fun e x hm hx => (hmembers e x hm hx).1
  · -- what is still to be entered was defined before
    intro e kind hmem x hm hx
    obtain ⟨d, hd⟩ := hstack₀ e kind (List.mem_cons_of_mem _ hmem)
    obtain ⟨-, d', hd', hle⟩ := hmembers e x hm hx.1
    cases ((grows_of_runs passage.ends).1.definition hd).symm.trans hd'
    exact absurd (hsound₀.definition hd).lt (Nat.not_lt.2 hle)

/-! ### Members that are entered in a scope -/

/-- The members that are entered from table `t₀` on, or are still to be entered, are those of entities
which nodes from number `n` on define, and which nothing outside of the new scopes defines. -/
structure EntersBarred (n : Nat) (t₀ : Table) (s : State) (stack : List Step) : Prop where
  members : ∀ {e x}, s.scopes.members? e = some x → t₀.NewScope x → t₀.BarredFrom n s.scopes e
  steps : ∀ {e kind}, .enter (.members e kind) ∈ stack → t₀.BarredFrom n s.scopes e

/-- So it is in a part of the walk if the namespaces that are defined there are bound in new
scopes. -/
theorem entersBarred_of_runs {s₁ : State} {stack₁ : List Step} {n : Nat} (hn : n ≤ s.tree.size)
    (hreach : Runs language source (.initial language spelling) (initialSteps parse) s
      (stack ++ rest))
    (hinside : Runs language source s stack s₁ stack₁) (hs : EntersBarred n s.scopes s stack)
    (hnamespace : ∀ {s₂ f rest₂ op e name}, Runs language source s stack s₂ (.visit f :: rest₂) →
      (s₂.scopes.perform op).1 = .entity e → op.node? = some ⟨s₂.tree.size⟩ →
      (readNode language source s₂.scopes ⟨s₂.tree.size⟩ f).content =
        .definition ⟨.namespaceName, name⟩ → s.scopes.NewlyHeld (s₂.scopes.perform op).2 e) :
    EntersBarred n s.scopes s₁ stack₁ := by
  refine hinside.along (P := EntersBarred n s.scopes)
    (fun {s₂ step rest₂ s₃ steps} hr hs hstep => ?_) hs
  have hruns := hreach.trans (hr.append rest)
  have standing := (sound_of_parse hruns).1.standing
  have keep : ∀ {e}, s.scopes.BarredFrom n s₂.scopes e → s.scopes.BarredFrom n s₃.scopes e := by
    intro e he
    rcases scopes_perform hstep with heq | ⟨op, heq, -⟩ <;> rw [heq]
    · exact he
    · exact he.perform standing op
  refine ⟨fun {e x} hm hx => ?_, fun {e kind} hmem => ?_⟩
  · rcases scopes_perform hstep with heq | ⟨op, heq, hop, -⟩
    · exact keep (hs.members (heq ▸ hm) hx)
    · rw [heq] at hm
      rcases Table.members?_of_perform standing hm with hm | ⟨-, -, kind, ho⟩
      · exact keep (hs.members hm hx)
      · have hmem : .enter (.members e kind) ∈ step :: rest₂ := hop e kind ho ▸ List.mem_cons_self
        exact keep (hs.steps hmem)
  · rcases List.mem_append.1 hmem with hmem | hmem
    · obtain ⟨f, rfl, op, hnode, hanswer, heq, kind, name, hkind, hc⟩ := opens_of_perform hstep hmem
      have hle := (grows_of_runs hr).2.size_le
      -- a namespace may have been there before; anything else is new when it is defined
      by_cases hns : kind = .namespaceName
      · subst hns
        obtain ⟨⟨d, hd⟩, -⟩ := Table.defined_of_answer standing hanswer hnode
        have hheld := hnamespace hr hanswer hnode hc
        rw [← heq] at hd hheld
        refine hheld.barredFrom (placed_of_runs hreach).1
          (placed_of_runs (hruns.trans (.more hstep (.refl _ _)))).1 ?_ hd
        exact (grows_of_runs (hr.trans (.more hstep (.refl _ _)))).1.mono fun _ => Nat.le_trans hn
      · obtain ⟨hun, hd⟩ := Table.unentered_of_answer (placed_of_runs hruns).1 standing hanswer
          hnode hkind hns
        rw [← heq] at hun hd
        exact ⟨Or.inr ⟨hun.defined, hun.kind⟩, _, hd, Nat.le_trans hn hle⟩
    · exact keep (hs.steps (List.mem_cons_of_mem _ hmem))

/-- **The members that are entered in a scope that is no entity's** are those of what is defined in
it, if the namespaces that are defined there are bound in new scopes. -/
theorem barredFrom_of_passage {f : Frame} {o : Opening} {front inside : List Concrete.Node}
    {s₀ s₁ s₂ : State}
    (hruns : Runs language source (.initial language spelling) (initialSteps parse) s₀
      (.visit f :: rest))
    (passage : Passage language source f o front inside rest s₀ s₁ s s₂ s')
    (hentry : o.entry.entity? = none)
    (hnamespace : ∀ {s₃ f₃ rest₃ op e name},
      Runs language source (.initial language spelling) (initialSteps parse) s₃
        (.visit f₃ :: rest₃) →
      s.tree.size ≤ s₃.tree.size → s₃.tree.size < s'.tree.size →
      (s₃.scopes.perform op).1 = .entity e → op.node? = some ⟨s₃.tree.size⟩ →
      (readNode language source s₃.scopes ⟨s₃.tree.size⟩ f₃).content =
        .definition ⟨.namespaceName, name⟩ → s.scopes.NewlyHeld (s₃.scopes.perform op).2 e)
    {e : EntityId} {x : ScopeId} (hm : s'.scopes.members? e = some x) (hx : s.scopes.NewScope x) :
    s.scopes.BarredFrom s₀.tree.size s'.scopes e := by
  have hinner := (passage.entered []).enter
  have hreach := hruns.trans passage.enters
  have standing := (sound_of_parse hreach).1.standing
  rw [List.append_cons, ← List.cons_append] at hreach
  -- at first no members are to be entered
  have hbegin : EntersBarred s₀.tree.size s.scopes s (.enter o.entry ::
      (visitsIn f.node ⟨s₀.tree.size⟩ f.context
        (readNode language source s₀.scopes ⟨s₀.tree.size⟩ f).outline none inside ++
          [.leave o.entry])) := by
    refine ⟨fun hm hx => absurd (standing.members hm) (Nat.not_lt.2 hx), fun {e kind} hmem => ?_⟩
    rcases List.mem_cons.1 hmem with he | hmem
    · rw [← Step.enter.inj he] at hentry
      cases hentry
    · rcases List.mem_append.1 hmem with hmem | hmem
      · simp only [visitsIn, visits, List.mem_map] at hmem
        obtain ⟨c, -, he⟩ := hmem
        cases he
      · cases List.mem_singleton.1 hmem
  refine (entersBarred_of_runs ?_ hreach hinner hbegin fun hr hanswer hnode hc => ?_).members hm hx
  · rw [passage.size]
    omega
  · exact hnamespace (hreach.trans (hr.append rest)) (grows_of_runs hr).2.size_le
      (lt_of_runs_visit hr hinner) hanswer hnode hc

/-! ### Later states -/

/-- **What is shut stays shut.** -/
theorem shut_of_runs {X : ScopeId → Prop} {B : EntityId → Prop} {s₁ : State} {stack₁ : List Step}
    (hruns : Runs language source (.initial language spelling) (initialSteps parse) s stack)
    (h : Runs language source s stack s₁ stack₁) (hs : s.scopes.Shut X B)
    (hstack : EntersNone X s.scopes stack) :
    s₁.scopes.Shut X B ∧ EntersNone X s₁.scopes stack₁ := by
  refine h.along (P := fun s stack => s.scopes.Shut X B ∧ EntersNone X s.scopes stack)
    (fun {s step rest s' steps} hr ⟨hs, hstack⟩ hstep => ?_) ⟨hs, hstack⟩
  have standing := (sound_of_parse (hruns.trans hr)).1.standing
  have hplaced := (placed_of_runs (hruns.trans hr)).1
  refine ⟨?_, ?_⟩
  · rcases scopes_perform hstep with he | ⟨op, he, hop, -⟩ <;> rw [he]
    · exact hs
    · exact hs.perform standing fun e kind ho =>
        hstack e kind (hop e kind ho ▸ List.mem_cons_self)
  · intro e kind hmem x hm
    rcases List.mem_append.1 hmem with hmem | hmem
    · obtain ⟨_, -, op, hnode, hanswer, he, -⟩ := opens_of_perform hstep hmem
      rw [he] at hm
      exact hs.members_of_answer hplaced standing hanswer hnode hm
    · have hfree := hstack e kind (List.mem_cons_of_mem _ hmem)
      rcases scopes_perform hstep with he | ⟨op, he, -⟩ <;> rw [he] at hm
      · exact hfree x hm
      · exact hs.members_of_perform standing hfree hm

/-- What is made in between stays shut in all later states. -/
theorem Passes.later (h : Passes language source spelling parse s s' stack rest) {s₁ : State}
    {stack₁ : List Step} (hlater : Runs language source s' rest s₁ stack₁) :
    s₁.scopes.Shut (s.Between s') (s.MembersBetween s') :=
  (shut_of_runs h.exits hlater h.shut h.free).1

/-- **What is shut stays unused**, if no directive that is read makes visible what lies there. -/
theorem unused_of_runs {X : ScopeId → Prop} {s₁ : State} {stack₁ : List Step}
    (hruns : Runs language source (.initial language spelling) (initialSteps parse) s stack)
    (h : Runs language source s stack s₁ stack₁) (hs : s.scopes.Unused X)
    (hdirective : ∀ {s₂ f rest e}, Runs language source s stack s₂ (.visit f :: rest) →
      f.context.role = .usedNamespace →
      (readNode language source s₂.scopes ⟨s₂.tree.size⟩ f).entity = some e →
      ∀ x, s₂.scopes.members? e = some x → ¬ X x) :
    s₁.scopes.Unused X := by
  refine h.along (P := fun s _ => s.scopes.Unused X)
    (fun {s₂ step rest s₃ steps} hr hs hstep => ?_) hs
  rcases scopes_perform hstep with he | ⟨op, he, -, huse⟩ <;> rw [he]
  · exact hs
  · refine hs.perform (sound_of_parse (hruns.trans hr)).1.standing fun e ho => ?_
    obtain ⟨f, rfl, hrole, hentity⟩ := huse e ho
    exact hdirective hr hrole hentity

/-- A scope that is not that of an entity's members stays so. -/
theorem memberless_of_runs {x : ScopeId} {s₁ : State} {stack₁ : List Step}
    (hruns : Runs language source (.initial language spelling) (initialSteps parse) s stack)
    (h : Runs language source s stack s₁ stack₁) (hs : s.scopes.Memberless x) :
    s₁.scopes.Memberless x := by
  refine h.along (P := fun s _ => s.scopes.Memberless x)
    (fun {s₂ step rest s₃ steps} hr hs hstep => ?_) hs
  rcases scopes_perform hstep with he | ⟨op, he, -⟩ <;> rw [he]
  · exact hs
  · exact hs.perform (sound_of_parse (hruns.trans hr)).1.standing op

/-- A reference to what is bound in a scope that is made on the way is read on the way, if it cannot
be found later. -/
theorem Passes.id_bounds_of_read (h : Passes language source spelling parse s s' stack rest)
    {sf s₁ : State} {rest₁ : List Step} {f : Frame} {e : EntityId} {z : ScopeId}
    (hwalk : walk language source (.initial language spelling) (initialSteps parse) = .ok sf)
    (hread : Runs language source (.initial language spelling) (initialSteps parse) s₁
      (.visit f :: rest₁))
    (hentity : (readNode language source s₁.scopes ⟨s₁.tree.size⟩ f).entity = some e)
    (hz : s.scopes.NewScope z) (hholds : sf.scopes.Holds z e)
    (hlater : Runs language source s' rest s₁ (.visit f :: rest₁) →
      ∃ y, y ≠ z ∧ (readNode language source s₁.scopes ⟨s₁.tree.size⟩ f).scopes.Holds y e) :
    s.tree.size ≤ s₁.tree.size ∧ s₁.tree.size < s'.tree.size := by
  have hend := walk_eq_ok_iff.1 hwalk
  have hplaced := (placed_of_runs hend).1
  obtain ⟨s₂, id, outline, hadd, hvisit, hwalk₂⟩ := walk_visit_cons_eq_ok (hread.walk_eq ▸ hwalk)
  obtain ⟨rfl, hsize⟩ := size_add hadd
  obtain ⟨tree, -, rfl, -⟩ := add_eq_ok.1 hadd
  refine ⟨Nat.le_of_not_lt fun hlt => ?_, Nat.lt_of_not_le fun hle => ?_⟩
  · -- what was read before is older than the scope
    have hto : Runs language source s₁ (.visit f :: rest₁) s stack := by
      rcases hread.linear h.enters with hr | hr
      · exact hr
      · exact absurd (grows_of_runs hr).2.size_le (Nat.not_le.2 hlt)
    have hold : e.index < s.scopes.entities.size := by
      cases hto with
      | refl => exact absurd hlt (Nat.lt_irrefl _)
      | more hstep hr =>
          obtain ⟨_, _, hadd', rfl⟩ := perform_visit_eq_ok.1 hstep
          cases hadd.symm.trans hadd'
          have hsound := (sound_of_parse (hread.trans hvisit)).1
          have he := (hsound.pending _ (State.mem_pending_record_self hentity)).1
          exact Nat.lt_of_lt_of_le he (grows_of_runs hr).1.entities_le
    have hnew := (placed_of_runs h.enters).1.newEntity hplaced
      (grows_of_runs (walk_eq_ok_iff.1 (h.enters.walk_eq ▸ hwalk))).1 hz hholds
    exact absurd hold (Nat.not_lt.2 hnew)
  · -- what is read later is found elsewhere
    obtain ⟨y, hy, hbound⟩ := hlater (runs_of_size_le h.exits hread hle)
    exact hy (hplaced.unique (hbound.grows (grows_of_runs (walk_eq_ok_iff.1 hwalk₂)).1) hholds)

end Parse

end TypeUses.Resolution
