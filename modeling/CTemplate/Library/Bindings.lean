import Mathlib.Data.Finmap

/-!
# Finite maps as lists of bindings

`Represents d l` says that the list `l` holds the bindings of the finite map `d`, in any
order, each once.  Adding, removing and changing a binding of the list inserts, erases and
changes it in the map, and the map has as many keys as the list has bindings.
-/

namespace Bindings

universe u v

variable {K : Type u} {V : Type v} [DecidableEq K] {d : Finmap fun _ : K => V}
  {l l' : List (K × V)} {k : K} {v : V}

/-- The list `l` holds the bindings of `d`. -/
structure Represents (d : Finmap fun _ : K => V) (l : List (K × V)) : Prop where
  nodup : (l.map Prod.fst).Nodup
  lookup_iff : ∀ k v, d.lookup k = some v ↔ (k, v) ∈ l

theorem represents_empty : Represents (∅ : Finmap fun _ : K => V) [] where
  nodup := List.nodup_nil
  lookup_iff := by simp

/-- The order of the bindings does not matter. -/
theorem Represents.perm (h : Represents d l) (hperm : l.Perm l') :
  Represents d l'
  where
  nodup := (hperm.map Prod.fst).nodup_iff.mp h.nodup
  lookup_iff := by
    intro k v
    rw [h.lookup_iff, hperm.mem_iff]

/-- The keys of the map are the keys of the bindings. -/
theorem Represents.mem_iff (h : Represents d l) :
  k ∈ d ↔ k ∈ l.map Prod.fst
  := by
  rw [Finmap.mem_iff, List.mem_map]
  constructor
  · rintro ⟨v, hv⟩
    use (k, v), (h.lookup_iff k v).mp hv
  · rintro ⟨⟨k', v⟩, hmem, rfl⟩
    use v
    apply (h.lookup_iff k' v).mpr hmem

/-- The map has as many keys as the list has bindings. -/
theorem Represents.card_keys (h : Represents d l) :
  d.keys.card = l.length
  := by
  have hkeys : d.keys = (l.map Prod.fst).toFinset := by
    ext k
    rw [Finmap.mem_keys, h.mem_iff, List.mem_toFinset]
  rw [hkeys, List.toFinset_card_of_nodup h.nodup, List.length_map]

/-- A new binding. -/
theorem Represents.insert (h : Represents d l) (hnew : k ∉ d) (v : V) :
  Represents (d.insert k v) ((k, v) :: l)
  := by
  constructor
  · rw [List.map_cons, List.nodup_cons, ← h.mem_iff]
    exact ⟨hnew, h.nodup⟩
  · intro k' v'
    rw [List.mem_cons, Prod.mk.injEq]
    by_cases hk : k' = k
    · subst hk
      rw [Finmap.lookup_insert, Option.some.injEq]
      have hnot : (k', v') ∉ l := by
        rw [h.mem_iff] at hnew
        exact fun hmem => hnew (List.mem_map_of_mem hmem)
      simp [hnot, eq_comm]
    · rw [Finmap.lookup_insert_of_ne _ hk, h.lookup_iff]
      simp [hk]

/-- A removed binding. -/
theorem Represents.erase (h : Represents d ((k, v) :: l)) :
  Represents (d.erase k) l
  := by
  have hnodup := h.nodup
  rw [List.map_cons, List.nodup_cons] at hnodup
  obtain ⟨hnot, hnodup⟩ := hnodup
  constructor
  · exact hnodup
  · intro k' v'
    by_cases hk : k' = k
    · subst hk
      rw [Finmap.lookup_erase]
      constructor
      · intro heq
        cases heq
      · intro hmem
        exact absurd (List.mem_map_of_mem hmem) hnot
    · rw [Finmap.lookup_erase_ne hk, h.lookup_iff, List.mem_cons, Prod.mk.injEq]
      simp [hk]

/-- A changed binding. -/
theorem Represents.replace (h : Represents d ((k, v) :: l)) (v' : V) :
  Represents (d.insert k v') ((k, v') :: l)
  := by
  have hinsert := h.erase.insert Finmap.notMem_erase_self v'
  have heq : (d.erase k).insert k v' = d.insert k v' := by
    apply Finmap.ext_lookup
    intro k'
    by_cases hk : k' = k
    · subst hk
      rw [Finmap.lookup_insert, Finmap.lookup_insert]
    · rw [Finmap.lookup_insert_of_ne _ hk, Finmap.lookup_insert_of_ne _ hk,
        Finmap.lookup_erase_ne hk]
  rwa [heq] at hinsert

/-- A list with one binding less. -/
theorem Represents.remove (h : Represents d l) (hperm : ((k, v) :: l').Perm l) :
  Represents (d.erase k) l'
  := (h.perm hperm.symm).erase

/-- A list with one binding changed. -/
theorem Represents.change
    (h : Represents d l) (hmem : (k, v) ∈ l) {v' : V}
    (hperm : ((k, v) :: l').Perm ((k, v') :: l)) :
  Represents (d.insert k v') l'
  := by
  obtain ⟨pre, post, rfl⟩ := List.append_of_mem hmem
  have hrest := h.perm List.perm_middle
  apply (hrest.replace v').perm
  apply List.Perm.cons_inv
  calc
    List.Perm ((k, v) :: (k, v') :: (pre ++ post)) ((k, v') :: (k, v) :: (pre ++ post)) :=
      List.Perm.swap ..
    List.Perm _ ((k, v') :: (pre ++ (k, v) :: post)) := List.Perm.cons _ List.perm_middle.symm
    List.Perm _ ((k, v) :: l') := hperm.symm

end Bindings
