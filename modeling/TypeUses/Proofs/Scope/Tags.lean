import TypeUses.Proofs.Scope.Kinds
import TypeUses.Proofs.Scope.WriteOnce

/-!
# Scopes — tags and ordinary names

Where tags are types, a tag is bound as an ordinary name as well.  Later operations may give the
ordinary name another meaning, define the tag as one of another kind or bind it anew; the two
meanings of a name in a scope stay in accord (`Accord`) nevertheless.

* `Orderly.perform`: an operation keeps the accord, if it binds tags as tags, namespaces as
  namespaces and neither as ordinary names (`Operation.IsProper`).
* `tags_agree`: so a name that means a tag means something as an ordinary name wherever it is looked
  up, and an ordinary name means no other tag; where tags are not types it means no tag at all.
-/

namespace TypeUses

/-- The space of an operation admits the kind that it binds, even where tags are not types. -/
def Operation.IsProper (op : Operation) : Prop :=
  ∀ space ∈ op.space?, ∀ kind ∈ op.kind?, space.Admits false kind

instance Operation.decidableIsProper (op : Operation) : Decidable op.IsProper :=
  inferInstanceAs (Decidable (∀ space ∈ op.space?, ∀ kind ∈ op.kind?, _))

theorem Operation.IsProper.admits_of_binding {op : Operation} (h : op.IsProper) {b : Binding}
    (hb : op.binding? = some b) : b.space.Admits false b.kind :=
  h b.space (space?_of_binding hb) b.kind (kind?_of_binding hb)

namespace Table

/-- Whether an entity is a tag. -/
def isTag? (t : Table) (e : EntityId) : Option Bool := (t.kind? e).map EntityKind.isTag

variable {t t' : Table} {tag ordinary : Option EntityId} {e : EntityId}

/-- What a name means as a tag and what it means as an ordinary name are in accord: the tag is the
ordinary meaning too, unless that is no tag, and an ordinary meaning that is a tag is that tag. -/
structure Accord (t : Table) (tag ordinary : Option EntityId) : Prop where
  of_tag : ∀ {e}, tag = some e → ∃ e', ordinary = some e' ∧ (e' = e ∨ t.isTag? e' = some false)
  of_ordinary : ∀ {e}, ordinary = some e → t.isTag? e = some true → tag = some e

/-- Whether an entity is a tag is settled. -/
theorem Settles.isTag? (h : t.Settles t') {b : Bool} (hb : t.isTag? e = some b) :
    t'.isTag? e = some b := by
  obtain ⟨kind, hk, rfl⟩ := Option.map_eq_some_iff.1 hb
  obtain ⟨kind', hk', htag⟩ := h.isTag hk
  rw [Table.isTag?, hk', Option.map_some, htag]

namespace Accord

theorem same (t : Table) (e : EntityId) : t.Accord (some e) (some e) :=
  ⟨fun h => ⟨_, h, Or.inl rfl⟩, fun h _ => h⟩

theorem of_notTag (he : t.isTag? e = some false) : t.Accord tag (some e) where
  of_tag _ := ⟨e, rfl, Or.inr he⟩
  of_ordinary h htag := by
    cases h
    cases he.symm.trans htag

/-- Meanings that stay the same stay in accord. -/
theorem settle (h : t.Accord tag ordinary) (hsettles : t.Settles t')
    (hkind : ∀ {e}, ordinary = some e → ∃ kind, t.kind? e = some kind) :
    t'.Accord tag ordinary where
  of_tag htag := by
    obtain ⟨e', he', hsame⟩ := h.of_tag htag
    exact ⟨e', he', hsame.imp_right hsettles.isTag?⟩
  of_ordinary {e} he htag := by
    obtain ⟨kind, hk⟩ := hkind he
    have hold : t.isTag? e = some kind.isTag := by rw [isTag?, hk, Option.map_some]
    rw [hsettles.isTag? hold] at htag
    exact h.of_ordinary he (hold.trans htag)

end Accord

/-! ### Operations -/

/-- The spaces admit what names mean in them, and where tags are types every scope has what it binds
as a tag in accord with what it binds as an ordinary name. -/
structure Orderly (t : Table) : Prop where
  standing : t.Standing
  kinded : t.Kinded fun _ _ => True
  accord : t.tagsAreTypes = true →
    ∀ s name, t.Accord (t.local? s .tag name) (t.local? s .ordinary name)

theorem orderly_empty (tagsAreTypes : Bool) : (empty tagsAreTypes).Orderly where
  standing := (closed_empty tagsAreTypes).standing
  kinded := ⟨fun h => (not_bound_empty h.bound).elim, fun _ _ => trivial⟩
  accord _ s name := by
    have hnone : ∀ space, (empty tagsAreTypes).local? s space name = none := fun space =>
      Option.eq_none_iff_forall_ne_some.2 fun _ h => not_bound_empty (boundIn_of_local? h).bound
    rw [hnone, hnone]
    exact ⟨nofun, nofun⟩

namespace Orderly

variable {op : Operation}

/-- **A proper operation keeps the order.** -/
theorem perform (h : t.Orderly) (hop : op.IsProper) : (t.perform op).2.Orderly where
  standing := h.standing.perform op
  kinded := h.kinded.perform op
    (fun space kind hspace hkind => (hop space hspace kind hkind).everywhere _)
    fun _ _ _ _ => trivial
  accord htypes s name := by
    have hsettles : t.Settles (t.perform op).2 := settles_perform h.standing op
    rw [hsettles.grows.tagsAreTypes] at htypes
    have hkept : (t.perform op).2.Accord (t.local? s .tag name) (t.local? s .ordinary name) :=
      (h.accord htypes s name).settle hsettles fun he => by
        obtain ⟨kind, hk, -⟩ := h.kinded.bound (boundIn_of_local? he)
        exact ⟨kind, hk⟩
    rcases locals_of_perform h.standing op with hsame | ⟨b, hb, hkind, hlocal⟩
    · rw [hsame, hsame]
      exact hkept
    · -- a new entity is bound, in the scope and under the name of the binding only
      rw [hlocal, hlocal]
      by_cases hplace : t.innermost b.accepts = s ∧ b.name = name
      · have hadmits := hop.admits_of_binding hb
        cases hspace : b.space with
        | tag => simpa [hplace, hspace, htypes] using Accord.same (t.perform op).2 _
        | ordinary =>
            rw [hspace] at hadmits
            have hno : (t.perform op).2.isTag? ⟨t.entities.size⟩ = some false := by
              rw [isTag?, hkind, Option.map_some, hadmits.isTag_eq_false]
            simpa [hplace, hspace] using Accord.of_notTag hno
        | namespaces => simpa [hplace, hspace] using hkept
      · simpa [← and_assoc, hplace] using hkept

theorem performAll (h : t.Orderly) {ops : List Operation} (hops : ∀ op ∈ ops, op.IsProper) :
    (t.performAll ops).2.Orderly := by
  induction ops generalizing t with
  | nil => exact h
  | cons op ops ih =>
      exact ih (h.perform (hops op List.mem_cons_self)) fun x hx =>
        hops x (List.mem_cons_of_mem _ hx)

/-- Where tags are types, a name that is found as a tag is found as an ordinary name. -/
theorem isSome_lookup (h : t.Orderly) (htypes : t.tagsAreTypes = true) {name : String}
    {look : Lookup} (hlook : (t.lookup [.tag] name look).isSome) :
    (t.lookup [.ordinary] name look).isSome := by
  refine Table.isSome_lookup (fun s hs => ?_) look hlook
  simp only [localIn?, List.findSome?_singleton] at hs ⊢
  obtain ⟨e, he⟩ := Option.isSome_iff_exists.1 hs
  obtain ⟨e', he', -⟩ := (h.accord htypes s name).of_tag he
  exact Option.isSome_iff_exists.2 ⟨e', he'⟩

/-- Where tags are not types, no ordinary name means a tag. -/
theorem isTag?_ordinary (h : t.Orderly) (htypes : t.tagsAreTypes = false) {s : ScopeId}
    {name : String} (he : t.local? s .ordinary name = some e) : t.isTag? e = some false := by
  obtain ⟨kind, hk, hadmits⟩ := h.kinded.bound (boundIn_of_local? he)
  rw [htypes] at hadmits
  rw [isTag?, hk, Option.map_some, hadmits.isTag_eq_false]

end Orderly

/-- **Tags and ordinary names agree where tags are types, and are apart where they are not.** -/
theorem tags_agree {tagsAreTypes : Bool} {ops : List Operation}
    (hops : ∀ op ∈ ops, op.IsProper) :
    let t := ((empty tagsAreTypes).performAll ops).2
    (tagsAreTypes = true →
      (∀ s name e, t.local? s .tag name = some e →
        ∃ e', t.local? s .ordinary name = some e' ∧ (e' = e ∨ t.isTag? e' = some false)) ∧
      (∀ s name e, t.local? s .ordinary name = some e → t.isTag? e = some true →
        t.local? s .tag name = some e) ∧
      ∀ name look, (t.lookup [.tag] name look).isSome → (t.lookup [.ordinary] name look).isSome) ∧
    (tagsAreTypes = false →
      ∀ s name e, t.local? s .ordinary name = some e → t.isTag? e = some false) := by
  intro t
  have h : t.Orderly := (orderly_empty tagsAreTypes).performAll hops
  have htypes : t.tagsAreTypes = tagsAreTypes := (keeps_performAll _ ops).tagsAreTypes
  refine ⟨fun hyes => ?_, fun hno s name e => h.isTag?_ordinary (htypes.trans hno)⟩
  have hsame := htypes.trans hyes
  exact ⟨fun s name e => (h.accord hsame s name).of_tag,
    fun s name e => (h.accord hsame s name).of_ordinary, fun name look => h.isSome_lookup hsame⟩

/-- A tag whose name becomes that of a type, before the tag is declared again, which leaves the
ordinary name as it is. -/
theorem tags_agree_typedef :
    let t := ((empty true).performAll
      [.define .tag "A" .structTag ⟨1⟩, .define .ordinary "A" .typedefName ⟨2⟩,
        .declare .tag "A" .classTag, .enter .block]).2
    (∃ e, t.local? fileScope .ordinary "A" = some e ∧ (e = ⟨0⟩ ∨ t.isTag? e = some false)) ∧
      (t.lookup [.ordinary] "A" .lexical).isSome := by
  intro t
  have hops : ∀ op ∈ [.define .tag "A" .structTag ⟨1⟩, .define .ordinary "A" .typedefName ⟨2⟩,
      .declare .tag "A" .classTag, .enter .block], Operation.IsProper op := by
    decide
  obtain ⟨hagree, -⟩ := @tags_agree true _ hops
  obtain ⟨htag, -, hlookup⟩ := hagree rfl
  exact ⟨htag fileScope "A" ⟨0⟩ (by decide), hlookup "A" .lexical (by decide)⟩

end Table

end TypeUses
