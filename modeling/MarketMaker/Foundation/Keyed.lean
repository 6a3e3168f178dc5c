import Mathlib.Data.List.Nodup
import Mathlib.Order.Lattice

/-!
# Lists of entries with keys

A list whose entries carry keys, read as a partial map: `lookup` takes the first entry with a key,
`upsert` changes the first entry with the key of a new entry or appends that entry.  While keys are
distinct the list and the map determine each other up to the order of the entries, and sorting by
key gives strictly sorted lists.
-/

namespace MarketMaker.Keyed

variable {ε α : Type*} {key : ε → α}

theorem nodup_filter {entries : List ε} (hnodup : (entries.map key).Nodup) (p : ε → Bool) :
    ((entries.filter p).map key).Nodup :=
  hnodup.sublist (List.filter_sublist.map key)

/-- Entries with distinct keys that all have one key. -/
theorem length_le_one {entries : List ε} (hnodup : (entries.map key).Nodup)
    (hsame : ∀ first ∈ entries, ∀ second ∈ entries, key first = key second) :
    entries.length ≤ 1 := by
  match entries with
  | [] | [_] => simp
  | first :: second :: rest =>
    have hkey : key first = key second := hsame first (by simp) second (by simp)
    simp [hkey] at hnodup

variable [DecidableEq α]

/-- The first entry with a key. -/
def lookup (key : ε → α) (entries : List ε) (a : α) : Option ε :=
  entries.find? fun entry ↦ key entry = a

/-- Modify the first entry that has the key of `fresh`, or append `fresh`. -/
def upsert (key : ε → α) (modify : ε → ε) (fresh : ε) : List ε → List ε
  | [] => [fresh]
  | entry :: rest =>
    if key entry = key fresh then modify entry :: rest else entry :: upsert key modify fresh rest

@[simp]
theorem lookup_nil (a : α) : lookup key [] a = none := rfl

theorem lookup_cons (entry : ε) (rest : List ε) (a : α) :
    lookup key (entry :: rest) a = if key entry = a then some entry else lookup key rest a := by
  by_cases ha : key entry = a <;> simp [lookup, ha]

theorem key_of_lookup {entries : List ε} {a : α} {entry : ε}
    (hlookup : lookup key entries a = some entry) : key entry = a := by
  simpa using List.find?_some hlookup

theorem lookup_eq_none {entries : List ε} {a : α} :
    lookup key entries a = none ↔ a ∉ entries.map key := by
  simp [lookup]

/-- With distinct keys an entry is found under its key. -/
theorem mem_iff_lookup {entries : List ε} (hnodup : (entries.map key).Nodup) {entry : ε} :
    entry ∈ entries ↔ lookup key entries (key entry) = some entry := by
  induction entries with
  | nil => simp
  | cons head rest ih =>
    rw [List.map_cons, List.nodup_cons] at hnodup
    rw [List.mem_cons, lookup_cons]
    by_cases hkey : key head = key entry
    · rw [if_pos hkey, Option.some.injEq]
      have hrest : entry ∉ rest := by
        intro hmem
        exact hnodup.1 (hkey ▸ List.mem_map_of_mem hmem)
      simp [hrest, eq_comm]
    · rw [if_neg hkey, ← ih hnodup.2]
      have hne : entry ≠ head := by
        intro heq
        exact hkey (heq ▸ rfl)
      simp [hne]

/-- Lists with the same entries under distinct keys are the same map. -/
theorem lookup_eq_of_perm {entries entries' : List ε} (hperm : entries.Perm entries')
    (hnodup : (entries.map key).Nodup) (a : α) : lookup key entries a = lookup key entries' a := by
  have hnodup' : (entries'.map key).Nodup := (hperm.map key).nodup_iff.mp hnodup
  cases hlookup : lookup key entries' a with
  | none =>
    rw [lookup_eq_none] at hlookup ⊢
    rwa [(hperm.map key).mem_iff]
  | some entry =>
    have hkey := key_of_lookup hlookup
    subst hkey
    rwa [← mem_iff_lookup hnodup, hperm.mem_iff, mem_iff_lookup hnodup']

theorem lookup_map {entries : List ε} {f : ε → ε} (hf : ∀ entry, key (f entry) = key entry)
    (a : α) : lookup key (entries.map f) a = (lookup key entries a).map f := by
  induction entries with
  | nil => rfl
  | cons head rest ih =>
    rw [List.map_cons, lookup_cons, lookup_cons, hf, ih]
    split_ifs <;> rfl

/-- With distinct keys at most one entry has a given key. -/
theorem filter_key_eq {entries : List ε} (hnodup : (entries.map key).Nodup) (a : α) :
    entries.filter (fun entry ↦ key entry = a) = (lookup key entries a).toList := by
  induction entries with
  | nil => rfl
  | cons head rest ih =>
    rw [List.map_cons, List.nodup_cons] at hnodup
    rw [lookup_cons, List.filter_cons, ih hnodup.2]
    by_cases hkey : key head = a
    · have hrest : lookup key rest a = none := lookup_eq_none.mpr (hkey ▸ hnodup.1)
      simp [hkey, hrest]
    · simp [hkey]

/-- Two lists with the same entries under every key agree up to order. -/
theorem perm_of_filter_eq (key : ε → α) {entries entries' : List ε}
    (hsame : ∀ a, entries.filter (fun entry ↦ key entry = a) =
      entries'.filter fun entry ↦ key entry = a) : entries.Perm entries' := by
  classical
  rw [List.perm_iff_count]
  intro entry
  have hcount : ∀ entries : List ε,
      (entries.filter fun other ↦ key other = key entry).count entry = entries.count entry :=
    fun _ ↦ List.count_filter (by simp)
  rw [← hcount entries, hsame, hcount]

theorem lookup_filter {entries : List ε} (hnodup : (entries.map key).Nodup) (p : ε → Bool)
    (a : α) : lookup key (entries.filter p) a = (lookup key entries a).filter p := by
  induction entries with
  | nil => rfl
  | cons head rest ih =>
    rw [List.map_cons, List.nodup_cons] at hnodup
    rw [lookup_cons]
    by_cases hkey : key head = a
    · have hrest : lookup key (rest.filter p) a = none := by
        rw [ih hnodup.2, lookup_eq_none.mpr (hkey ▸ hnodup.1)]
        rfl
      by_cases hp : p head <;> simp [hp, hkey, hrest, lookup_cons, Option.filter]
    · by_cases hp : p head <;> simp [hp, hkey, ih hnodup.2, lookup_cons]

/-- Writing what is there already changes nothing. -/
theorem upsert_eq_self {modify : ε → ε} {fresh entry : ε} {entries : List ε}
    (hlookup : lookup key entries (key fresh) = some entry) (hsame : modify entry = entry) :
    upsert key modify fresh entries = entries := by
  induction entries with
  | nil => simp at hlookup
  | cons head rest ih =>
    rw [lookup_cons] at hlookup
    by_cases hkey : key head = key fresh
    · rw [if_pos hkey] at hlookup
      rw [upsert, if_pos hkey, Option.some.inj hlookup, hsame]
    · rw [if_neg hkey] at hlookup
      rw [upsert, if_neg hkey, ih hlookup]

section Upsert

variable {modify : ε → ε} (hmodify : ∀ entry, key (modify entry) = key entry)
include hmodify

/-- Only the key of the new entry is written. -/
theorem lookup_upsert (fresh : ε) (entries : List ε) (a : α) :
    lookup key (upsert key modify fresh entries) a =
      if key fresh = a then some ((lookup key entries a).elim fresh modify)
      else lookup key entries a := by
  induction entries with
  | nil => simp [upsert, lookup_cons]
  | cons head rest ih =>
    rw [upsert, lookup_cons]
    by_cases hhead : key head = key fresh
    · rw [if_pos hhead, lookup_cons, hmodify, hhead]
      split_ifs <;> rfl
    · rw [if_neg hhead, lookup_cons, ih]
      by_cases ha : key fresh = a
      · subst ha
        simp only [if_neg hhead]
      · simp only [if_neg ha]

theorem map_key_upsert (fresh : ε) (entries : List ε) :
    (upsert key modify fresh entries).map key =
      if key fresh ∈ entries.map key then entries.map key
      else entries.map key ++ [key fresh] := by
  induction entries with
  | nil => simp [upsert]
  | cons head rest ih =>
    by_cases hhead : key head = key fresh
    · simp [upsert, hhead, hmodify]
    · have hmem : key fresh ∈ (head :: rest).map key ↔ key fresh ∈ rest.map key := by
        simp [Ne.symm hhead]
      rw [upsert, if_neg hhead, List.map_cons, ih]
      simp only [hmem]
      split_ifs <;> rfl

theorem nodup_upsert (fresh : ε) {entries : List ε} (hnodup : (entries.map key).Nodup) :
    ((upsert key modify fresh entries).map key).Nodup := by
  rw [map_key_upsert hmodify]
  split_ifs with hmem
  · exact hnodup
  · exact hnodup.append (List.nodup_singleton _) (by simpa using hmem)

/-- Seen by one key, an upsert writes the first entry or appends. -/
theorem filter_upsert (fresh : ε) (entries : List ε) (a : α) :
    (upsert key modify fresh entries).filter (fun entry ↦ key entry = a) =
      if key fresh = a then
        ((entries.filter fun entry ↦ key entry = a).head?.elim fresh modify) ::
          (entries.filter fun entry ↦ key entry = a).tail
      else entries.filter fun entry ↦ key entry = a := by
  induction entries with
  | nil => by_cases ha : key fresh = a <;> simp [upsert, ha]
  | cons head rest ih =>
    unfold upsert
    by_cases hhead : key head = key fresh
    · by_cases ha : key fresh = a <;> simp [hhead, hmodify, ha]
    · rw [if_neg hhead, List.filter_cons, ih]
      by_cases ha : key fresh = a
      · have hne : key head ≠ a := ha ▸ hhead
        simp [ha, hne]
      · simp [ha, List.filter_cons]

omit hmodify in
theorem upsert_of_notMem {fresh : ε} {entries : List ε} (hmem : key fresh ∉ entries.map key) :
    upsert key modify fresh entries = entries ++ [fresh] := by
  induction entries with
  | nil => rfl
  | cons head rest ih =>
    rw [List.map_cons, List.mem_cons, not_or] at hmem
    rw [upsert, if_neg (Ne.symm hmem.1), ih hmem.2, List.cons_append]

end Upsert

/-- Sorting entries with distinct keys by key sorts them strictly. -/
theorem pairwise_lt_mergeSort {β : Type*} [LinearOrder β] {key : ε → β} {entries : List ε}
    (hnodup : (entries.map key).Nodup) :
    (entries.mergeSort fun a b ↦ decide (key a ≤ key b)).Pairwise fun a b ↦ key a < key b := by
  have hsorted := @List.pairwise_mergeSort ε (fun a b ↦ decide (key a ≤ key b))
    (by simpa using fun a b c ↦ le_trans) (by simpa using fun a b ↦ le_total (key a) (key b))
    entries
  have hdistinct : (entries.mergeSort fun a b ↦ decide (key a ≤ key b)).Pairwise
      fun a b ↦ key a ≠ key b :=
    List.pairwise_map.mp (((List.mergeSort_perm entries _).map key).nodup_iff.mpr hnodup)
  apply (hsorted.and hdistinct).imp
  intro a b hab
  exact lt_of_le_of_ne (of_decide_eq_true hab.1) hab.2

section Comparison

variable {cmp : ε → ε → Ordering} [Std.TransCmp cmp] (htie : ∀ a b, cmp a b = .eq → key a = key b)
include htie
omit [DecidableEq α]

/-- Sorting entries with distinct keys sorts them strictly, when only entries of one key tie. -/
theorem pairwise_cmp_mergeSort {entries : List ε} (hnodup : (entries.map key).Nodup) :
    (entries.mergeSort fun a b ↦ (cmp a b).isLE).Pairwise fun a b ↦ cmp a b = .lt := by
  have htotal : ∀ a b, ((cmp a b).isLE || (cmp b a).isLE) = true := by
    intro a b
    by_cases hle : (cmp a b).isLE
    · simp [hle]
    · simp [Std.OrientedCmp.lt_of_not_isLE hle]
  have hsorted := List.pairwise_mergeSort (fun _ _ _ ↦ Std.TransCmp.isLE_trans) htotal entries
  have hdistinct : (entries.mergeSort fun a b ↦ (cmp a b).isLE).Pairwise fun a b ↦ key a ≠ key b :=
    List.pairwise_map.mp (((List.mergeSort_perm entries _).map key).nodup_iff.mpr hnodup)
  apply (hsorted.and hdistinct).imp
  intro a b hab
  cases hcmp : cmp a b with
  | lt => rfl
  | eq => exact absurd (htie a b hcmp) hab.2
  | gt => simp [hcmp] at hab

/-- What is sorted does not depend on the order of the entries. -/
theorem mergeSort_cmp_eq_of_perm {entries entries' : List ε} (hperm : entries.Perm entries')
    (hnodup : (entries.map key).Nodup) :
    (entries.mergeSort fun a b ↦ (cmp a b).isLE) =
      entries'.mergeSort fun a b ↦ (cmp a b).isLE := by
  have hnodup' : (entries'.map key).Nodup := (hperm.map key).nodup_iff.mp hnodup
  have hsorted : (entries.mergeSort fun a b ↦ (cmp a b).isLE).Perm
      (entries'.mergeSort fun a b ↦ (cmp a b).isLE) :=
    ((List.mergeSort_perm entries _).trans hperm).trans (List.mergeSort_perm entries' _).symm
  apply List.Perm.eq_of_pairwise _ (pairwise_cmp_mergeSort htie hnodup)
    (pairwise_cmp_mergeSort htie hnodup') hsorted
  intro a b _ _ hab hba
  exact absurd hba (Std.OrientedCmp.not_lt_of_lt hab)

end Comparison

/-- A partial function that is defined on every entry maps the list. -/
theorem mapM_eq_filterMap {β : Type*} {f : ε → Option β} {entries : List ε}
    (hsome : ∀ entry ∈ entries, (f entry).isSome) :
    entries.mapM f = some (entries.filterMap f) := by
  induction entries with
  | nil => rfl
  | cons head rest ih =>
    obtain ⟨image, himage⟩ := Option.isSome_iff_exists.mp (hsome head (List.mem_cons_self ..))
    have hrest := ih fun entry hmem ↦ hsome entry (List.mem_cons_of_mem _ hmem)
    simp [List.mapM_cons, himage, hrest]

theorem isSome_of_mapM_eq_some {β : Type*} {f : ε → Option β} {entries : List ε} {images : List β}
    (hmap : entries.mapM f = some images) : ∀ entry ∈ entries, (f entry).isSome := by
  induction entries generalizing images with
  | nil => simp
  | cons head rest ih =>
    rw [List.mapM_cons] at hmap
    obtain ⟨image, himage, hmap⟩ := Option.bind_eq_some_iff.mp hmap
    obtain ⟨images', hrest, -⟩ := Option.bind_eq_some_iff.mp hmap
    intro entry hmem
    rcases List.mem_cons.mp hmem with rfl | hmem
    · simp [himage]
    · exact ih hrest entry hmem

end MarketMaker.Keyed
