import Mathlib.Data.Finmap
import Mathlib.Data.Finset.Sort

/-!
# Iterating a finite map in key order

`entries` lists a finite map by ascending keys, each key once, as an ordered map is iterated.  The
map and its entries determine each other.
-/

namespace MarketMaker.SortedMap

variable {κ ν : Type*} [DecidableEq κ]

theorem keys_insert (map : Finmap fun _ : κ ↦ ν) (key : κ) (value : ν) :
    (map.insert key value).keys = insert key map.keys := by
  ext other
  rw [Finmap.mem_keys, Finmap.mem_insert, Finset.mem_insert, Finmap.mem_keys]

theorem mem_keys_of_lookup {map : Finmap fun _ : κ ↦ ν} {key : κ} {value : ν}
    (hlookup : map.lookup key = some value) : key ∈ map.keys :=
  Finmap.mem_keys.mpr (Finmap.mem_iff.mpr ⟨value, hlookup⟩)

variable [LE κ] [DecidableLE κ] [IsTrans κ (· ≤ ·)]
  [Std.Antisymm (α := κ) (· ≤ ·)] [Std.Total (α := κ) (· ≤ ·)]

def entries (map : Finmap fun _ : κ ↦ ν) : List (κ × ν) :=
  (map.keys.sort (· ≤ ·)).filterMap fun key ↦ (map.lookup key).map fun value ↦ (key, value)

@[simp]
theorem mem_entries {map : Finmap fun _ : κ ↦ ν} {key : κ} {value : ν} :
    (key, value) ∈ entries map ↔ map.lookup key = some value := by
  simp only [entries, List.mem_filterMap, Finset.mem_sort, Option.map_eq_some_iff, Prod.mk.injEq]
  constructor
  · intro hentry
    obtain ⟨key, -, value, hlookup, rfl, rfl⟩ := hentry
    exact hlookup
  · intro hlookup
    exact ⟨key, mem_keys_of_lookup hlookup, value, hlookup, rfl, rfl⟩

theorem map_fst_entries (map : Finmap fun _ : κ ↦ ν) :
    (entries map).map Prod.fst = map.keys.sort (· ≤ ·) := by
  have hsome : ∀ key ∈ map.keys.sort (· ≤ ·), ((map.lookup key).map fun value ↦ (key, value)).map
      Prod.fst = some key := by
    intro key hmem
    obtain ⟨value, hlookup⟩ := Finmap.mem_iff.mp (Finmap.mem_keys.mp ((Finset.mem_sort _).mp hmem))
    rw [hlookup]
    rfl
  rw [entries, List.map_filterMap, List.filterMap_congr hsome, List.filterMap_some]

/-- No key is listed twice. -/
theorem nodup_entries (map : Finmap fun _ : κ ↦ ν) : ((entries map).map Prod.fst).Nodup := by
  rw [map_fst_entries]
  exact Finset.sort_nodup ..

end MarketMaker.SortedMap
