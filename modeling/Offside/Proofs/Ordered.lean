import Mathlib.Data.List.Basic
import Mathlib.Data.List.Induction
import Offside.Ordered

/-!
# What an ordered map holds

A map is built from a list of pairs by insertion alone. Its names are those of the pairs, each where
it is first given (`Ordered.keys_ofPairs`), and the value of a name is the one it is last given
(`Ordered.get?_ofPairs`). A map is known from its names in order and from what it gives for each
(`Ordered.entries_get?`).
-/

set_option autoImplicit false

namespace Offside.Ordered

open List

variable {α β : Type} {key name : String} {v : α} {m : Ordered α} {p : String × α}

/-! ## Names -/

theorem keys_insert_of_mem (h : key ∈ keys m) : keys (insert key v m) = keys m := by
  induction m with
  | nil => cases h
  | cons p rest ih =>
    obtain ⟨k, w⟩ := p
    by_cases hk : k = key
    · simp [insert, keys, hk]
    · have hrest : key ∈ keys rest := (mem_cons.mp h).resolve_left (Ne.symm hk)
      rw [insert, if_neg hk, keys, map_cons, keys, map_cons]
      exact congrArg (k :: ·) (ih hrest)

theorem keys_insert_of_not_mem (h : key ∉ keys m) : keys (insert key v m) = keys m ++ [key] := by
  induction m with
  | nil => rfl
  | cons p rest ih =>
    obtain ⟨k, w⟩ := p
    obtain ⟨hk, hrest⟩ := not_or.mp (mt mem_cons.mpr h)
    rw [insert, if_neg (Ne.symm hk), keys, map_cons, keys, map_cons]
    exact congrArg (k :: ·) (ih hrest)

theorem nodup_keys_insert (h : (keys m).Nodup) : (keys (insert key v m)).Nodup := by
  by_cases hkey : key ∈ keys m
  · rwa [keys_insert_of_mem hkey]
  · rw [keys_insert_of_not_mem hkey]
    refine nodup_append.mpr ⟨h, by simp, fun a ha b hb => ?_⟩
    rintro rfl
    exact hkey (mem_singleton.mp hb ▸ ha)

theorem ofPairs_concat (pairs : List (String × α)) (p : String × α) :
    ofPairs (pairs ++ [p]) = insert p.1 p.2 (ofPairs pairs) := by
  rw [ofPairs, foldl_append, ofPairs]
  rfl

/-- The names of a map are those of its pairs, in the order in which they are first given. -/
theorem keys_ofPairs (pairs : List (String × α)) :
    keys (ofPairs pairs) = (keys pairs).eraseDups := by
  -- From the end, since the last pair is the last to be inserted.
  induction pairs using reverseRecOn with
  | nil => rfl
  | append_singleton pairs p ih =>
    have hkeys : keys (pairs ++ [p]) = keys pairs ++ [p.1] := map_append
    rw [ofPairs_concat, hkeys, eraseDups_append, ← ih]
    by_cases hp : p.1 ∈ keys pairs
    · rw [keys_insert_of_mem (by rwa [ih, mem_eraseDups])]
      simp [removeAll, hp]
    · rw [keys_insert_of_not_mem (by rwa [ih, mem_eraseDups])]
      simp [removeAll, hp, eraseDups_cons]

/-! ## Values -/

@[simp] theorem get?_cons (key k : String) (v : α) (rest : Ordered α) :
    get? key ((k, v) :: rest) = if k = key then some v else get? key rest := by
  by_cases h : k = key
  · simp [get?, h]
  · simp [get?, h]

theorem get?_insert (key name : String) (v : α) (m : Ordered α) :
    get? name (insert key v m) = if key = name then some v else get? name m := by
  induction m with
  | nil => rw [insert, get?_cons]
  | cons p rest ih =>
    obtain ⟨k, w⟩ := p
    by_cases hk : k = key
    · subst hk
      by_cases hname : k = name
      · simp [insert, hname]
      · simp [insert, hname]
    · rw [insert, if_neg hk, get?_cons, ih, get?_cons]
      by_cases hname : k = name
      · rw [if_pos hname, if_neg fun h => hk (hname.trans h.symm), if_pos hname]
      · rw [if_neg hname, if_neg hname]

/-- The value that a name is last given. -/
def last? (name : String) (pairs : List (String × α)) : Option α :=
  (pairs.findRev? (·.1 == name)).map (·.2)

theorem last?_concat (name : String) (pairs : List (String × α)) (p : String × α) :
    last? name (pairs ++ [p]) = if p.1 = name then some p.2 else last? name pairs := by
  rw [last?, findRev?_eq_find?_reverse, reverse_concat, find?_cons]
  by_cases hp : p.1 = name
  · simp [hp]
  · simp [beq_false_of_ne hp, hp, last?, findRev?_eq_find?_reverse]

theorem last?_append_of_not_mem {name : String} {pairs more : List (String × α)}
    (h : name ∉ keys more) : last? name (pairs ++ more) = last? name pairs := by
  have hmore : more.reverse.find? (·.1 == name) = none := by
    refine find?_eq_none.mpr fun p hp heq => h ?_
    exact mem_map.mpr ⟨p, mem_reverse.mp hp, by simpa using heq⟩
  rw [last?, findRev?_eq_find?_reverse, reverse_append, find?_append, hmore, last?,
    findRev?_eq_find?_reverse]
  rfl

/-- A map gives the value that the name is last given. -/
theorem get?_ofPairs (name : String) (pairs : List (String × α)) :
    get? name (ofPairs pairs) = last? name pairs := by
  induction pairs using reverseRecOn with
  | nil => rfl
  | append_singleton pairs p ih => rw [ofPairs_concat, get?_insert, last?_concat, ih]

theorem get?_map (f : α → β) (key : String) (m : Ordered α) :
    get? key (m.map (Prod.map id f)) = (get? key m).map f := by
  induction m with
  | nil => rfl
  | cons p rest ih =>
    obtain ⟨k, v⟩ := p
    by_cases h : k = key
    · simp [h]
    · simp [h, ih]

theorem get?_append_of_forall_ne (h : ∀ p ∈ m, p.1 ≠ key) (rest : Ordered α) :
    get? key (m ++ rest) = get? key rest := by
  induction m with
  | nil => rfl
  | cons p m ih =>
    obtain ⟨hp, hm⟩ := forall_mem_cons.mp h
    rw [cons_append, get?_cons, if_neg hp, ih hm]

/-! ## Entries -/

/-- What is in a map after an insertion was in it or has been inserted. -/
theorem mem_insert (h : p ∈ insert key v m) : p = (key, v) ∨ p ∈ m := by
  induction m with
  | nil => exact .inl (mem_singleton.mp h)
  | cons q rest ih =>
    obtain ⟨k, w⟩ := q
    unfold insert at h
    split at h
    · rename_i hk
      rcases mem_cons.mp h with rfl | h
      · exact .inl (by rw [hk])
      · exact .inr (mem_cons_of_mem _ h)
    · rcases mem_cons.mp h with rfl | h
      · exact .inr mem_cons_self
      · exact (ih h).imp_right (mem_cons_of_mem _)

theorem mem_insert_self (key : String) (v : α) (m : Ordered α) : (key, v) ∈ insert key v m := by
  induction m with
  | nil => exact mem_cons_self
  | cons q rest ih =>
    obtain ⟨k, w⟩ := q
    unfold insert
    split
    · rename_i hk
      rw [hk]
      exact mem_cons_self
    · exact mem_cons_of_mem _ ih

theorem mem_insert_of_ne (h : p ∈ m) (hne : p.1 ≠ key) : p ∈ insert key v m := by
  induction m with
  | nil => cases h
  | cons q rest ih =>
    obtain ⟨k, w⟩ := q
    unfold insert
    split
    · rename_i hk
      rcases mem_cons.mp h with rfl | h
      · exact absurd hk hne
      · exact mem_cons_of_mem _ h
    · rcases mem_cons.mp h with rfl | h
      · exact mem_cons_self
      · exact mem_cons_of_mem _ (ih h)

/-- A map holds nothing but its pairs. -/
theorem mem_of_mem_ofPairs {pairs : List (String × α)} (h : p ∈ ofPairs pairs) : p ∈ pairs := by
  induction pairs using reverseRecOn with
  | nil => exact h
  | append_singleton pairs q ih =>
    rw [ofPairs_concat] at h
    rcases mem_insert h with rfl | h
    · exact mem_append_right _ mem_cons_self
    · exact mem_append_left _ (ih h)

/-- The last of the pairs with its name is in the map. -/
theorem mem_ofPairs {before after : List (String × α)} (h : p.1 ∉ keys after) :
    p ∈ ofPairs (before ++ p :: after) := by
  -- The pairs behind `p` have other names, and inserting those one by one leaves it alone.
  induction after using reverseRecOn with
  | nil =>
    rw [ofPairs_concat]
    exact mem_insert_self p.1 p.2 _
  | append_singleton after q ih =>
    rw [keys, map_append, mem_append, not_or] at h
    rw [← cons_append, ← append_assoc, ofPairs_concat]
    refine mem_insert_of_ne (ih h.1) ?_
    simpa using h.2

/-! ## Maps as a whole -/

theorem insert_map (f : α → β) (key : String) (v : α) (m : Ordered α) :
    insert key (f v) (m.map (Prod.map id f)) = (insert key v m).map (Prod.map id f) := by
  induction m with
  | nil => rfl
  | cons p rest ih =>
    obtain ⟨k, w⟩ := p
    by_cases h : k = key
    · simp [insert, h]
    · simp [insert, h, ih]

theorem ofPairs_map (f : α → β) (pairs : List (String × α)) :
    ofPairs (pairs.map (Prod.map id f)) = (ofPairs pairs).map (Prod.map id f) := by
  induction pairs using reverseRecOn with
  | nil => rfl
  | append_singleton pairs p ih =>
    rw [map_append, map_cons, map_nil, ofPairs_concat, ofPairs_concat, ih, ← insert_map]
    rfl

theorem insert_of_not_mem {m : Ordered α} {key : String} (value : α) (h : key ∉ keys m) :
    insert key value m = m ++ [(key, value)] := by
  induction m with
  | nil => rfl
  | cons e rest ih =>
    obtain ⟨k, v⟩ := e
    rw [keys, map_cons, mem_cons, not_or] at h
    rw [insert, if_neg (Ne.symm h.1), ih h.2, cons_append]

/-- Pairs under different names are a map already. -/
theorem ofPairs_of_nodup {pairs : List (String × α)} (h : (keys pairs).Nodup) :
    ofPairs pairs = pairs := by
  -- For the fold to go on, the pairs already in the map count as well.
  have hfold (m : Ordered α) (hm : (keys (m ++ pairs)).Nodup) :
      pairs.foldl (fun m p => insert p.1 p.2 m) m = m ++ pairs := by
    clear h
    induction pairs generalizing m with
    | nil => rw [append_nil, foldl_nil]
    | cons p rest ih =>
      have hp : p.1 ∉ keys m := by
        rw [keys, map_append, map_cons] at hm
        exact fun hmem => (nodup_append.mp hm).2.2 _ hmem _ mem_cons_self rfl
      rw [foldl_cons, insert_of_not_mem p.2 hp]
      rw [ih (m ++ [p]) (by rwa [append_assoc]), append_assoc, singleton_append]
  exact hfold [] h

/-- The entries of some names, as far as they have one. -/
def entries (value? : String → Option α) (names : List String) : Ordered α :=
  names.filterMap fun name => (value? name).map (name, ·)

theorem entries_append (value? : String → Option α) (xs ys : List String) :
    entries value? (xs ++ ys) = entries value? xs ++ entries value? ys :=
  filterMap_append

/-- A map is what it gives for its names. -/
theorem entries_get? (h : (keys m).Nodup) : entries (get? · m) (keys m) = m := by
  induction m with
  | nil => rfl
  | cons p rest ih =>
    obtain ⟨k, v⟩ := p
    obtain ⟨hk, hrest⟩ := nodup_cons.mp h
    have hothers : entries (get? · ((k, v) :: rest)) (keys rest) = rest := by
      refine (filterMap_congr fun name hname => ?_).trans (ih hrest)
      have hne : k ≠ name := (ne_of_mem_of_not_mem hname hk).symm
      simp only [get?_cons, if_neg hne]
    have hfirst : get? k ((k, v) :: rest) = some v := by rw [get?_cons, if_pos rfl]
    rw [keys, map_cons, entries, filterMap_cons, hfirst]
    exact congrArg ((k, v) :: ·) hothers

end Offside.Ordered
