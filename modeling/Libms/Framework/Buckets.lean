import Mathlib

/-! # Items in buckets

    A list of buckets, each with a key and a list of items: tasks with their
    readers, queues with their entries. `placed` lists every item with the key
    of its bucket, so that where each item is can be said of a single list.

    * `mem_placed`: what is placed.
    * `modify`: the bucket with one key changes. An item comes in
      (`placed_modify_add`) or goes out (`placed_modify_remove`).
    * `placed_filter`: empty buckets can be dropped.

    Nothing here depends on what the buckets or the items are. -/

namespace Buckets

variable {β κ ι : Type*}

/-- Every item, with the key of its bucket. -/
def placed (key : β → κ) (items : β → List ι) (bs : List β) : List (ι × κ) :=
  bs.flatMap fun b => (items b).map fun i => (i, key b)

/-- The buckets with the key `k` change. -/
def modify [DecidableEq κ] (key : β → κ) (k : κ) (f : β → β) (bs : List β) : List β :=
  bs.map fun b => if key b = k then f b else b

section placed

variable {key : β → κ} {items : β → List ι} {bs bs' : List β}

theorem mem_placed {i : ι} {k : κ} :
    (i, k) ∈ placed key items bs ↔ ∃ b ∈ bs, key b = k ∧ i ∈ items b := by
  simp only [placed, List.mem_flatMap, List.mem_map, Prod.mk.injEq]
  constructor
  · rintro ⟨b, hb, j, hj, rfl, rfl⟩
    exact ⟨b, hb, rfl, hj⟩
  · rintro ⟨b, hb, rfl, hi⟩
    exact ⟨b, hb, i, hi, rfl, rfl⟩

theorem placed_append :
    placed key items (bs ++ bs') = placed key items bs ++ placed key items bs' :=
  List.flatMap_append

@[simp] theorem placed_cons (b : β) :
    placed key items (b :: bs) = (items b).map (fun i => (i, key b)) ++ placed key items bs := rfl

/-- A new bucket is empty. -/
theorem placed_snoc {b : β} (h : items b = []) :
    placed key items (bs ++ [b]) = placed key items bs := by
  rw [placed_append, placed_cons, h]
  exact List.append_nil _

/-- Buckets without items can be dropped. -/
theorem placed_filter {p : β → Bool} (h : ∀ b ∈ bs, p b = false → items b = []) :
    placed key items (bs.filter p) = placed key items bs := by
  induction bs with
  | nil => rfl
  | cons b bs ih =>
    have htail := ih fun b' hb' => h b' (List.mem_cons_of_mem b hb')
    cases hb : p b with
    | true => rw [List.filter_cons_of_pos hb, placed_cons, placed_cons, htail]
    | false =>
      rw [List.filter_cons_of_neg (by rw [hb]; exact Bool.false_ne_true), htail, placed_cons,
        h b List.mem_cons_self hb]
      rfl

/-- A change that keeps keys and items places nothing else. -/
theorem placed_map {f : β → β} (hkey : ∀ b, key (f b) = key b)
    (hitems : ∀ b, items (f b) = items b) : placed key items (bs.map f) = placed key items bs := by
  induction bs with
  | nil => rfl
  | cons b bs ih => rw [List.map_cons, placed_cons, placed_cons, hkey, hitems, ih]

end placed

/-! ## One bucket changes -/

section modify

variable [DecidableEq κ] {key : β → κ} {items : β → List ι} {k : κ} {f : β → β} {bs : List β}

theorem mem_modify {b : β} :
    b ∈ modify key k f bs ↔
      (∃ b₀ ∈ bs, key b₀ = k ∧ f b₀ = b) ∨ (b ∈ bs ∧ key b ≠ k) := by
  simp only [modify, List.mem_map]
  constructor
  · rintro ⟨b₀, hb₀, rfl⟩
    by_cases hk : key b₀ = k
    · rw [if_pos hk]
      exact Or.inl ⟨b₀, hb₀, hk, rfl⟩
    · rw [if_neg hk]
      exact Or.inr ⟨hb₀, hk⟩
  · rintro (⟨b₀, hb₀, hk, rfl⟩ | ⟨hb, hk⟩)
    · exact ⟨b₀, hb₀, if_pos hk⟩
    · exact ⟨b, hb, if_neg hk⟩

theorem modify_map {α : Type*} {g : β → α} (hg : ∀ b, g (f b) = g b) :
    (modify key k f bs).map g = bs.map g := by
  rw [modify, List.map_map]
  apply List.map_congr_left
  intro b _
  show g (if key b = k then f b else b) = g b
  split
  · exact hg b
  · rfl

theorem placed_modify (hkey : ∀ b, key (f b) = key b) (hitems : ∀ b, items (f b) = items b) :
    placed key items (modify key k f bs) = placed key items bs := by
  apply placed_map
  · intro b
    split
    · exact hkey b
    · rfl
  · intro b
    split
    · exact hitems b
    · rfl

theorem modify_of_notMem (h : k ∉ bs.map key) : modify key k f bs = bs := by
  have hsame : ∀ b ∈ bs, (if key b = k then f b else b) = b := by
    intro b hb
    rw [if_neg]
    intro hk
    exact h (hk ▸ List.mem_map_of_mem hb)
  rw [modify, List.map_congr_left hsame, List.map_id']

/-- An item comes in. -/
theorem placed_modify_add {i : ι} (hkeys : (bs.map key).Nodup) (hk : k ∈ bs.map key)
    (hkey : ∀ b, key (f b) = key b) (hitems : ∀ b, items (f b) = items b ++ [i]) :
    (placed key items (modify key k f bs)).Perm ((i, k) :: placed key items bs) := by
  induction bs with
  | nil => cases hk
  | cons b bs ih =>
    rw [List.map_cons, List.nodup_cons] at hkeys
    have hcons : modify key k f (b :: bs) =
        (if key b = k then f b else b) :: modify key k f bs := rfl
    rw [hcons, placed_cons, placed_cons]
    by_cases hb : key b = k
    · -- the keys differ, so no other bucket changes
      rw [if_pos hb, modify_of_notMem (hb ▸ hkeys.1), hkey, hitems, List.map_append, hb,
        List.append_assoc]
      exact List.perm_middle
    · rw [if_neg hb]
      have htail := ih hkeys.2 ((List.mem_cons.mp hk).resolve_left (Ne.symm hb))
      exact (htail.append_left _).trans List.perm_middle

/-- An item goes out. -/
theorem placed_modify_remove [DecidableEq ι] {i : ι} (hkey : ∀ b, key (f b) = key b)
    (hitems : ∀ b, items (f b) = (items b).filter (· ≠ i)) :
    placed key items (modify key k f bs) = (placed key items bs).filter (· ≠ (i, k)) := by
  induction bs with
  | nil => rfl
  | cons b bs ih =>
    have hcons : modify key k f (b :: bs) =
        (if key b = k then f b else b) :: modify key k f bs := rfl
    rw [hcons, placed_cons, placed_cons, List.filter_append, ← ih, List.filter_map]
    congr 1
    by_cases hb : key b = k
    · rw [if_pos hb, hkey, hitems, hb]
      congr 1
      apply List.filter_congr
      intro j _
      simp
    · rw [if_neg hb]
      congr 1
      refine (List.filter_eq_self.mpr ?_).symm
      intro j _
      simp [hb]

end modify

/-! ## Where an item is -/

/-- The keys of the buckets that an item is in, as often as it is there. -/
def places [DecidableEq ι] (ps : List (ι × κ)) (i : ι) : List κ :=
  (ps.filter fun p => p.1 = i).map Prod.snd

/-- An item that is placed once. -/
theorem places_of_mem [DecidableEq ι] {ps : List (ι × κ)} {i : ι} {k : κ}
    (hnodup : (ps.map Prod.fst).Nodup) (h : (i, k) ∈ ps) : places ps i = [k] := by
  induction ps with
  | nil => cases h
  | cons p ps ih =>
    rw [List.map_cons, List.nodup_cons] at hnodup
    by_cases hp : p.1 = i
    · have hrest : ps.filter (fun p => p.1 = i) = [] := by
        rw [List.filter_eq_nil_iff]
        intro q hq hqi
        refine hnodup.1 (List.mem_map.mpr ⟨q, hq, ?_⟩)
        exact (of_decide_eq_true hqi).trans hp.symm
      have hself : p = (i, k) := by
        rcases List.mem_cons.mp h with hself | hmem
        · exact hself.symm
        · exact absurd (List.mem_map.mpr ⟨_, hmem, hp.symm⟩) hnodup.1
      rw [places, List.filter_cons_of_pos (by simpa using hp), hrest, hself]
      rfl
    · have hmem : (i, k) ∈ ps := by
        rcases List.mem_cons.mp h with hself | hmem
        · exact absurd (congrArg Prod.fst hself).symm hp
        · exact hmem
      have hskip : places (p :: ps) i = places ps i := by
        rw [places, places, List.filter_cons_of_neg (by simpa using hp)]
      rw [hskip]
      exact ih hnodup.2 hmem

end Buckets
