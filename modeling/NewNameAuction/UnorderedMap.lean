import Mathlib.Algebra.BigOperators.Group.List.Basic
import Mathlib.Data.Finset.Card
import Mathlib.Data.List.AList

/-! `std::unordered_map` over Mathlib's `AList`: `insert` that leaves a key
already there alone, assignment through an iterator, and the loop that erases
while it iterates. The laws are about look-ups, so no result depends on the
order of the entries. -/
namespace NewNameAuction

abbrev UnorderedMap (K V : Type) := AList fun _ : K => V

namespace UnorderedMap
variable {K V σ : Type} [DecidableEq K]

def find (m : UnorderedMap K V) (k : K) : Option V := m.lookup k

/-- `insert(make_pair(k, v))`. -/
def emplace (m : UnorderedMap K V) (k : K) (v : V) : UnorderedMap K V :=
  if k ∈ m then m else m.insert k v

/-- `iter->second = v` for the entry of `k`. -/
def assign (m : UnorderedMap K V) (k : K) (v : V) : UnorderedMap K V := m.replace k v

def erase (m : UnorderedMap K V) (k : K) : UnorderedMap K V := AList.erase k m

/-- The values in the order of iteration. -/
def values (m : UnorderedMap K V) : List V := m.entries.map Sigma.snd

variable (m : UnorderedMap K V) (k j : K) (v w : V)

theorem find_eq_none {m : UnorderedMap K V} {k : K} : m.find k = none ↔ k ∉ m :=
  AList.lookup_eq_none

theorem mem_of_find {m : UnorderedMap K V} {k : K} {v : V} (found : m.find k = some v) : k ∈ m :=
  AList.lookup_isSome.mp (Option.isSome_of_eq_some found)

theorem find_of_mem {m : UnorderedMap K V} {k : K} (member : k ∈ m) : ∃ v, m.find k = some v :=
  Option.isSome_iff_exists.mp (AList.lookup_isSome.mpr member)

/-- Different values stand under different keys. -/
theorem key_ne {m : UnorderedMap K V} {k k' : K} {v v' : V} (found : m.find k = some v)
    (found' : m.find k' = some v') (other : v ≠ v') : k ≠ k' := by
  rintro rfl
  exact other (Option.some.inj (found.symm.trans found'))

theorem find_entry {m : UnorderedMap K V} {k : K} {v : V} : m.find k = some v ↔ ⟨k, v⟩ ∈ m.entries :=
  AList.mem_lookup_iff

@[simp] theorem find_emplace :
    (m.emplace k v).find j = (m.find j).or (if j = k then some v else none) := by
  unfold emplace find
  by_cases known : k ∈ m
  · rw [if_pos known]
    rcases eq_or_ne j k with rfl | other
    · obtain ⟨w, found⟩ := Option.isSome_iff_exists.mp (AList.lookup_isSome.mpr known)
      rw [found, Option.some_or]
    · rw [if_neg other, Option.or_none]
  · rw [if_neg known]
    rcases eq_or_ne j k with rfl | other
    · rw [AList.lookup_insert, AList.lookup_eq_none.mpr known, if_pos rfl, Option.none_or]
    · rw [AList.lookup_insert_ne other, if_neg other, Option.or_none]

/-- What a map holds after `emplace` it held before, or it is the new value. -/
theorem find_emplace_some {m : UnorderedMap K V} {k j : K} {v w : V}
    (found : (m.emplace k v).find j = some w) : m.find j = some w ∨ j = k ∧ w = v := by
  rw [find_emplace] at found
  cases old : m.find j with
  | some w' => exact .inl (by rwa [old, Option.some_or] at found)
  | none =>
    rw [old, Option.none_or] at found
    split at found
    · rename_i same
      exact .inr ⟨same, (Option.some.inj found).symm⟩
    · cases found

theorem find_emplace_new {m : UnorderedMap K V} {k : K} (v : V) (new : k ∉ m) :
    (m.emplace k v).find k = some v := by
  rw [find_emplace, find_eq_none.mpr new, Option.none_or, if_pos rfl]

theorem find_emplace_old {m : UnorderedMap K V} {j : K} {w : V} (k : K) (v : V)
    (found : m.find j = some w) : (m.emplace k v).find j = some w := by
  rw [find_emplace, found, Option.some_or]

@[simp] theorem mem_emplace : j ∈ m.emplace k v ↔ j = k ∨ j ∈ m := by
  unfold emplace
  split
  · rename_i known
    refine ⟨.inr, fun member => ?_⟩
    rcases member with rfl | member
    · exact known
    · exact member
  · exact AList.mem_insert m

@[simp] theorem find_erase : (m.erase k).find j = if j = k then none else m.find j := by
  unfold erase find
  rcases eq_or_ne j k with rfl | other
  · rw [if_pos rfl, AList.lookup_erase]
  · rw [if_neg other, AList.lookup_erase_ne other]

@[simp] theorem mem_erase : j ∈ m.erase k ↔ j ≠ k ∧ j ∈ m := AList.mem_erase

private theorem dlookup_kreplace (entries : List (Sigma fun _ : K => V)) :
    (entries.kreplace k v).dlookup j =
      if j = k then (entries.dlookup k).map fun _ => v else entries.dlookup j := by
  induction entries with
  | nil => simp [List.kreplace]
  | cons entry entries ih =>
    obtain ⟨key, value⟩ := entry
    unfold List.kreplace at ih ⊢
    rcases eq_or_ne k key with rfl | other
    · rw [List.lookmap_cons_some (b := ⟨k, v⟩) _ _ (by simp), List.dlookup_cons_eq]
      rcases eq_or_ne j k with rfl | elsewhere
      · rw [List.dlookup_cons_eq, if_pos rfl, Option.map_some]
      · rw [List.dlookup_cons_ne _ _ elsewhere, List.dlookup_cons_ne _ _ elsewhere, if_neg elsewhere]
    · have ahead : List.dlookup k (⟨key, value⟩ :: entries) = List.dlookup k entries :=
        List.dlookup_cons_ne _ _ other
      rw [List.lookmap_cons_none _ _ (by simp [other]), ahead]
      rcases eq_or_ne j key with rfl | elsewhere
      · rw [List.dlookup_cons_eq, List.dlookup_cons_eq, if_neg (Ne.symm other)]
      · rw [List.dlookup_cons_ne _ _ elsewhere, List.dlookup_cons_ne _ _ elsewhere, ih]

@[simp] theorem find_assign :
    (m.assign k v).find j = if j = k then (m.find k).map fun _ => v else m.find j :=
  dlookup_kreplace k j v m.entries

theorem mem_values {m : UnorderedMap K V} {v : V} : v ∈ m.values ↔ ∃ k, m.find k = some v := by
  simp only [values, List.mem_map, find_entry]
  constructor
  · rintro ⟨⟨k, v⟩, entry, rfl⟩
    exact ⟨k, entry⟩
  · rintro ⟨k, entry⟩
    exact ⟨⟨k, v⟩, entry, rfl⟩

/-! ## Keys -/

/-- `size()`. -/
def size (m : UnorderedMap K V) : Nat := m.keys.length

def keySet (m : UnorderedMap K V) : Finset K := m.keys.toFinset

@[simp] theorem mem_keySet {m : UnorderedMap K V} {k : K} : k ∈ m.keySet ↔ k ∈ m :=
  List.mem_toFinset.trans AList.mem_keys.symm

theorem card_keySet (m : UnorderedMap K V) : m.keySet.card = m.size :=
  List.toFinset_card_of_nodup m.keys_nodup

theorem size_emplace : (m.emplace k v).size = if k ∈ m then m.size else m.size + 1 := by
  unfold emplace size
  split
  · rfl
  · rename_i new
    rw [AList.keys_insert, List.length_cons, List.erase_of_not_mem fun there =>
      new (AList.mem_keys.mpr there)]

theorem size_assign : (m.assign k v).size = m.size := congrArg List.length (AList.keys_replace ..)

theorem size_erase {m : UnorderedMap K V} {k : K} (known : k ∈ m) : (m.erase k).size + 1 = m.size := by
  have erased : (m.erase k).keys = m.keys.erase k := AList.keys_erase k m
  unfold size
  rw [erased]
  exact List.length_erase_add_one (AList.mem_keys.mp known)

/-- An assignment exchanges one value where it stands. -/
theorem values_assign {m : UnorderedMap K V} {k : K} {old : V} (found : m.find k = some old) (v : V) :
    ∃ before after, m.values = before ++ old :: after ∧ (m.assign k v).values = before ++ v :: after := by
  suffices entries : ∀ entries : List (Sigma fun _ : K => V), entries.dlookup k = some old →
      ∃ before after, entries.map Sigma.snd = before ++ old :: after ∧
        (entries.kreplace k v).map Sigma.snd = before ++ v :: after from entries m.entries found
  intro entries
  induction entries with
  | nil => exact fun found => by cases found
  | cons entry entries ih =>
    obtain ⟨key, value⟩ := entry
    unfold List.kreplace at ih ⊢
    intro found
    rcases eq_or_ne k key with rfl | other
    · rw [List.dlookup_cons_eq, Option.some.injEq] at found
      rw [List.lookmap_cons_some (b := ⟨k, v⟩) _ _ (by simp), found]
      exact ⟨[], entries.map Sigma.snd, rfl, rfl⟩
    · have ahead : List.dlookup k (⟨key, value⟩ :: entries) = List.dlookup k entries :=
        List.dlookup_cons_ne _ _ other
      rw [ahead] at found
      obtain ⟨before, after, there, replaced⟩ := ih found
      rw [List.lookmap_cons_none _ _ (by simp [other])]
      exact ⟨value :: before, after, congrArg (value :: ·) there, congrArg (value :: ·) replaced⟩

/-- An assignment exchanges one term of a sum over the values. -/
theorem sum_values_assign {M : Type} [AddCommMonoid M] (f : V → M) {m : UnorderedMap K V} {k : K}
    {v old : V} (found : m.find k = some old) :
    ((m.assign k v).values.map f).sum + f old = (m.values.map f).sum + f v := by
  obtain ⟨before, after, there, assigned⟩ := values_assign found v
  rw [there, assigned]
  simp only [List.map_append, List.map_cons, List.sum_append, List.sum_cons]
  rw [add_assoc (before.map f).sum, add_assoc (before.map f).sum, add_right_comm (f v),
    add_right_comm (f old), add_comm (f v)]

/-- What the new value has in common with the old one is not seen to change. -/
theorem map_values_assign {α : Type} (f : V → α) {m : UnorderedMap K V} {k : K} {v old : V}
    (found : m.find k = some old) (same : f v = f old) :
    (m.assign k v).values.map f = m.values.map f := by
  obtain ⟨before, after, there, assigned⟩ := values_assign found v
  rw [there, assigned, List.map_append, List.map_append, List.map_cons, List.map_cons, same]

/-! ## The loop that erases while it iterates

The loop looks at every entry the map had when it started. What it does with
one may erase that entry, and no other, from the map. -/

/-- `for (iter = begin(); iter != end(); )` over `entries`. -/
def sweep (visit : K → V → σ → σ) (entries : List (Sigma fun _ : K => V)) (s : σ) : σ :=
  entries.foldl (fun s entry => visit entry.1 entry.2 s) s

section Sweep
variable (view : σ → UnorderedMap K V) {visit : K → V → σ → σ} {s : σ}

/-- What each visit of a standing entry keeps, the loop keeps. -/
theorem sweep_invariant {P : σ → Prop}
    (others : ∀ k v s j, j ≠ k → (view (visit k v s)).find j = (view s).find j)
    (kept : ∀ k v s, P s → (view s).find k = some v → P (visit k v s)) (start : P s) :
    P (sweep visit (view s).entries s) := by
  suffices standing : ∀ entries : List (Sigma fun _ : K => V), entries.NodupKeys → ∀ s, P s →
      (∀ entry ∈ entries, (view s).find entry.1 = some entry.2) → P (sweep visit entries s) from
    standing _ (view s).nodupKeys s start fun entry member =>
      find_entry.mpr member
  intro entries
  induction entries with
  | nil => exact fun _ _ start _ => start
  | cons entry entries ih =>
    intro nodup s start there
    obtain ⟨fresh, nodup⟩ := List.nodupKeys_cons.mp nodup
    refine ih nodup _ (kept _ _ _ start (there entry (by simp))) fun later member => ?_
    have apart : later.1 ≠ entry.1 := fun same =>
      fresh (same ▸ List.mem_keys_of_mem member)
    rw [others _ _ _ _ apart]
    exact there later (by simp [member])

/-- What a visit establishes for an entry that it leaves standing, and later
visits keep, holds of all entries that stand after the loop. -/
theorem sweep_standing {Q : K → V → σ → Prop}
    (others : ∀ k v s j, j ≠ k → (view (visit k v s)).find j = (view s).find j)
    (here : ∀ k v s w, (view s).find k = some v → (view (visit k v s)).find k = some w →
      Q k w (visit k v s))
    (kept : ∀ k v s j w, (view s).find k = some v → Q j w s → Q j w (visit k v s))
    {k : K} {v : V} (stands : (view (sweep visit (view s).entries s)).find k = some v) :
    Q k v (sweep visit (view s).entries s) := by
  suffices standing : ∀ entries : List (Sigma fun _ : K => V), entries.NodupKeys → ∀ s,
      (∀ entry ∈ entries, (view s).find entry.1 = some entry.2) →
      (∀ k v, (view s).find k = some v → k ∉ entries.keys → Q k v s) →
      ∀ k v, (view (sweep visit entries s)).find k = some v → Q k v (sweep visit entries s) by
    refine standing _ (view s).nodupKeys s (fun entry member => find_entry.mpr member)
      (fun k v found absent => ?_) k v stands
    exact absurd (mem_of_find found) absent
  intro entries
  induction entries with
  | nil => exact fun _ s _ seen k v found => seen k v found (by simp)
  | cons entry entries ih =>
    intro nodup s there seen
    obtain ⟨fresh, nodup⟩ := List.nodupKeys_cons.mp nodup
    have now := there entry (by simp)
    refine ih nodup _ (fun later member => ?_) (fun k v found absent => ?_)
    · have apart : later.1 ≠ entry.1 := fun same => fresh (same ▸ List.mem_keys_of_mem member)
      rw [others _ _ _ _ apart]
      exact there later (by simp [member])
    · rcases eq_or_ne k entry.1 with rfl | apart
      · exact here _ _ _ _ now found
      · rw [others _ _ _ _ apart] at found
        exact kept _ _ _ _ _ now (seen k v found (by simp [apart, absent]))

end Sweep

end UnorderedMap

end NewNameAuction
