import Mathlib.Data.List.Nodup

/-!
# Owned entities

Entities have owners, and links name an entity and an owner.  In a `Linked` collection the owner
a link names is the one of its entity, if the entity is there.  Entities get the ids that are
issued, so a new one is not the entity of any link.
-/

variable {ι ω : Type*} {issued issued' : List ι} {owners owners' links links' : List (ι × ω)}
  {id : ι} {owner : ω}

/-- Every link names the owner of its entity. -/
structure Linked (issued : List ι) (owners links : List (ι × ω)) : Prop where
  owners_issued : ∀ e ∈ owners, e.1 ∈ issued
  links_issued : ∀ l ∈ links, l.1 ∈ issued
  nodup : (owners.map Prod.fst).Nodup
  same_owner : ∀ l ∈ links, ∀ e ∈ owners, e.1 = l.1 → e.2 = l.2

namespace Linked

theorem nil :
  Linked issued ([] : List (ι × ω)) []
  := by
  constructor
  · intro e he
    cases he
  · intro l hl
    cases hl
  · apply List.nodup_nil
  · intro l hl
    cases hl

/-- An entity has one owner. -/
theorem owner_eq (h : Linked issued owners links) {e e' : ι × ω} (he : e ∈ owners)
    (he' : e' ∈ owners) (hid : e.1 = e'.1) :
  e.2 = e'.2
  := by
  obtain rfl := List.inj_on_of_nodup_map h.nodup he he' hid
  rfl

/-- Ids may be issued. -/
theorem issue (h : Linked issued owners links) (hsub : issued ⊆ issued') :
  Linked issued' owners links
  := by
  constructor
  · intro e he
    apply hsub (h.owners_issued e he)
  · intro l hl
    apply hsub (h.links_issued l hl)
  · apply h.nodup
  · apply h.same_owner

/-- An entity with a new id may have any owner. -/
theorem add_entity (h : Linked issued owners links) (hnew : id ∉ issued) :
  Linked (id :: issued) (owners ++ [(id, owner)]) links
  := by
  have hid : ∀ e ∈ owners, e.1 ≠ id := by
    rintro e he rfl
    apply hnew (h.owners_issued e he)
  constructor
  · intro e he
    rcases List.mem_append.mp he with he | he
    · apply List.mem_cons_of_mem _ (h.owners_issued e he)
    · obtain rfl := List.mem_singleton.mp he
      apply List.mem_cons_self
  · intro l hl
    apply List.mem_cons_of_mem _ (h.links_issued l hl)
  · rw [List.map_append, List.nodup_append]
    refine ⟨h.nodup, List.nodup_singleton id, ?_⟩
    intro a ha b hb
    obtain ⟨e, he, rfl⟩ := List.mem_map.mp ha
    obtain rfl := List.mem_singleton.mp hb
    apply hid e he
  · intro l hl e he hl'
    rcases List.mem_append.mp he with he | he
    · apply h.same_owner l hl e he hl'
    · obtain rfl := List.mem_singleton.mp he
      have hlid : id = l.1 := hl'
      apply absurd (hlid ▸ h.links_issued l hl) hnew

/-- A link may name an entity with its owner. -/
theorem add_link (h : Linked issued owners links) (hentity : (id, owner) ∈ owners) :
  Linked issued owners (links ++ [(id, owner)])
  := by
  constructor
  · apply h.owners_issued
  · intro l hl
    rcases List.mem_append.mp hl with hl | hl
    · apply h.links_issued l hl
    · obtain rfl := List.mem_singleton.mp hl
      apply h.owners_issued _ hentity
  · apply h.nodup
  · intro l hl e he hid
    rcases List.mem_append.mp hl with hl | hl
    · apply h.same_owner l hl e he hid
    · obtain rfl := List.mem_singleton.mp hl
      apply h.owner_eq he hentity hid

/-- Entities and links may be removed. -/
theorem sublist (h : Linked issued owners links) (howners : owners'.Sublist owners)
    (hlinks : links'.Sublist links) :
  Linked issued owners' links'
  := by
  constructor
  · intro e he
    apply h.owners_issued e (howners.subset he)
  · intro l hl
    apply h.links_issued l (hlinks.subset hl)
  · apply h.nodup.sublist (howners.map Prod.fst)
  · intro l hl e he
    apply h.same_owner l (hlinks.subset hl) e (howners.subset he)

end Linked
