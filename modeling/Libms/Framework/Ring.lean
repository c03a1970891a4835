import Mathlib

/-! # Circular queues

    A queue as a program in C links it: the head and the nodes each point to
    the next and to the previous one, and all pointers are in one memory.

    * `Links`: the memory, with the writes that `init`, `insertTail` and
      `remove` make.
    * `IsRing`: the nodes of a queue, in their order.
    * `IsRing.insertTail`, `IsRing.remove`: what the operations make of it.
      `IsRing.unlink` is what `remove` does to any two nodes that its node
      still points to.
    * `nodes`: what a loop over the queue visits.
    * `sweep` and `drain`: the loop that keeps the next node while its body may
      remove the present one, and the loop that runs until the queue is empty.

    Nothing here depends on what the nodes are. -/

namespace Ring

/-! ## Pointers -/

/-- The two pointers of every node. -/
structure Links (ν : Type*) where
  next : ν → ν
  prev : ν → ν

namespace Links

variable {ν : Type*}

/-! ## Rings -/

/-- Two nodes point to each other. -/
def Adjacent (l : Links ν) (a b : ν) : Prop := l.next a = b ∧ l.prev b = a

/-- The nodes of the queue with head `h`, from the first to the last. -/
structure IsRing (l : Links ν) (h : ν) (xs : List ν) : Prop where
  chain : (h :: xs ++ [h]).IsChain l.Adjacent
  nodup : (h :: xs).Nodup

section rings

variable {l l' : Links ν} {h q : ν} {xs ys : List ν}

/-- A chain only depends on the pointers between its nodes. -/
theorem chain_congr (hl : xs.IsChain l.Adjacent) (hnext : ∀ a ∈ xs.dropLast, l'.next a = l.next a)
    (hprev : ∀ b ∈ xs.tail, l'.prev b = l.prev b) : xs.IsChain l'.Adjacent := by
  induction hl with
  | nil => exact .nil
  | singleton a => exact .singleton a
  | @cons_cons a b xs hab _ ih =>
    rw [List.dropLast_cons_cons] at hnext
    have hhere : l'.Adjacent a b :=
      ⟨(hnext a List.mem_cons_self).trans hab.1, (hprev b List.mem_cons_self).trans hab.2⟩
    exact .cons_cons hhere (ih (fun x hx => hnext x (List.mem_cons_of_mem a hx))
      fun x hx => hprev x (List.mem_cons_of_mem b hx))

/-- A ring is cut in two before any of its nodes. -/
theorem isRing_append : l.IsRing h (xs ++ ys) ↔
    (h :: (xs ++ ys)).Nodup ∧ (h :: xs).IsChain l.Adjacent ∧ (ys ++ [h]).IsChain l.Adjacent ∧
      ∀ a ∈ (h :: xs).getLast?, ∀ b ∈ (ys ++ [h]).head?, l.Adjacent a b := by
  have hsplit : h :: (xs ++ ys) ++ [h] = (h :: xs) ++ (ys ++ [h]) := by
    rw [List.cons_append, List.cons_append, List.append_assoc]
  constructor
  · rintro ⟨hchain, hnodup⟩
    rw [hsplit, List.isChain_append] at hchain
    exact ⟨hnodup, hchain⟩
  · rintro ⟨hnodup, hchain⟩
    refine ⟨?_, hnodup⟩
    rw [hsplit, List.isChain_append]
    exact hchain

theorem IsRing.ne_head (hr : l.IsRing h xs) (hq : q ∈ xs) : q ≠ h := by
  rintro rfl
  exact (List.nodup_cons.mp hr.nodup).1 hq

/-- The last node of a ring. -/
theorem IsRing.last (hr : l.IsRing h xs) : (h :: xs).getLast? = some (l.prev h) := by
  rw [← List.append_nil xs, isRing_append] at hr
  obtain ⟨-, -, -, hlink⟩ := hr
  rw [List.getLast?_eq_some_getLast (List.cons_ne_nil h xs)] at hlink ⊢
  rw [(hlink _ rfl h rfl).2]

/-- The first node of a ring, or of what is left of it behind some nodes. -/
theorem IsRing.first (hr : l.IsRing h (xs ++ ys)) {a : ν} (ha : (h :: xs).getLast? = some a) :
    (ys ++ [h]).head? = some (l.next a) := by
  obtain ⟨-, -, -, hlink⟩ := isRing_append.mp hr
  cases hhead : (ys ++ [h]).head? with
  | none =>
    rw [List.head?_eq_none_iff] at hhead
    exact absurd hhead (List.append_ne_nil_of_right_ne_nil ys (List.cons_ne_nil h []))
  | some b => rw [(hlink a ha b hhead).1]

theorem IsRing.next_head (hr : l.IsRing h xs) : (xs ++ [h]).head? = some (l.next h) := by
  have hall : l.IsRing h ([] ++ xs) := hr
  exact hall.first rfl

theorem IsRing.empty_iff (hr : l.IsRing h xs) : l.next h = h ↔ xs = [] := by
  have hfirst := hr.next_head
  cases xs with
  | nil => exact ⟨fun _ => rfl, fun _ => (Option.some.inj hfirst).symm⟩
  | cons x xs =>
    have hx : x = l.next h := Option.some.inj hfirst
    constructor
    · intro heq
      exact absurd (hx.trans heq) (hr.ne_head List.mem_cons_self)
    · intro hnil
      cases hnil

/-- The neighbours of a node of a ring. -/
theorem IsRing.neighbours (hr : l.IsRing h (xs ++ q :: ys)) :
    (h :: xs).getLast? = some (l.prev q) ∧ (ys ++ [h]).head? = some (l.next q) := by
  constructor
  · obtain ⟨-, -, -, hlink⟩ := isRing_append.mp hr
    rw [List.getLast?_eq_some_getLast (List.cons_ne_nil h xs)] at hlink ⊢
    rw [(hlink _ rfl q rfl).2]
  · have hr' : l.IsRing h ((xs ++ [q]) ++ ys) := by
      rw [List.append_assoc]
      exact hr
    apply hr'.first
    rw [← List.cons_append]
    exact List.getLast?_concat

/-- The pointers of other nodes do not matter. -/
theorem IsRing.congr (hr : l.IsRing h xs) (hnext : ∀ a ∈ h :: xs, l'.next a = l.next a)
    (hprev : ∀ a ∈ h :: xs, l'.prev a = l.prev a) : l'.IsRing h xs where
  chain := by
    refine chain_congr hr.chain ?_ ?_
    · rw [List.dropLast_concat]
      exact hnext
    · intro b hb
      rw [List.cons_append, List.tail_cons, List.mem_append, List.mem_singleton] at hb
      rcases hb with hb | rfl
      · exact hprev b (List.mem_cons_of_mem h hb)
      · exact hprev b List.mem_cons_self
  nodup := hr.nodup

end rings

/-! ## Operations -/

variable [DecidableEq ν]

def setNext (l : Links ν) (q x : ν) : Links ν := { l with next := Function.update l.next q x }

def setPrev (l : Links ν) (q x : ν) : Links ν := { l with prev := Function.update l.prev q x }

/-- A node is linked to itself. -/
def init (l : Links ν) (q : ν) : Links ν := (l.setNext q q).setPrev q q

/-- A node is linked in before the head. -/
def insertTail (l : Links ν) (h q : ν) : Links ν :=
  let l := l.setNext q h
  let l := l.setPrev q (l.prev h)
  let l := l.setNext (l.prev q) q
  l.setPrev h q

/-- The neighbours of a node are linked to each other. The node keeps its own
    pointers. -/
def remove (l : Links ν) (q : ν) : Links ν :=
  let l := l.setNext (l.prev q) (l.next q)
  l.setPrev (l.next q) (l.prev q)

/-- The nodes from `q` on until the head, at most `n`. -/
def nodesFrom (l : Links ν) (h : ν) : (n : Nat) → (q : ν) → List ν
  | 0, _ => []
  | n + 1, q => if q = h then [] else q :: l.nodesFrom h n (l.next q)

/-- The nodes of a queue, at most `n`. -/
def nodes (l : Links ν) (n : Nat) (h : ν) : List ν := l.nodesFrom h n (l.next h)

section operations

variable {l : Links ν} {h q : ν} {xs ys : List ν}

@[simp] theorem init_next : (l.init q).next = Function.update l.next q q := rfl
@[simp] theorem init_prev : (l.init q).prev = Function.update l.prev q q := rfl

theorem insertTail_prev :
    (l.insertTail h q).prev = Function.update (Function.update l.prev q (l.prev h)) h q := rfl

theorem insertTail_next :
    (l.insertTail h q).next = Function.update (Function.update l.next q h) (l.prev h) q := by
  have hset : Function.update l.prev q (l.prev h) q = l.prev h := Function.update_self ..
  show Function.update (Function.update l.next q h)
    (Function.update l.prev q (l.prev h) q) q = _
  rw [hset]

theorem remove_next : (l.remove q).next = Function.update l.next (l.prev q) (l.next q) := rfl

theorem remove_prev : (l.remove q).prev = Function.update l.prev (l.next q) (l.prev q) := by
  -- the first write leaves the pointer that the second one goes through
  have hkept : Function.update l.next (l.prev q) (l.next q) q = l.next q := by
    by_cases hself : q = l.prev q
    · rw [← hself]
      exact Function.update_self ..
    · exact Function.update_of_ne hself _ _
  show Function.update l.prev (Function.update l.next (l.prev q) (l.next q) q) (l.prev q) = _
  rw [hkept]

/-- A node on its own. -/
theorem isRing_init (l : Links ν) (h : ν) : (l.init h).IsRing h [] where
  chain := .cons_cons ⟨Function.update_self .., Function.update_self ..⟩ (.singleton h)
  nodup := List.nodup_singleton h

theorem IsRing.init (hr : l.IsRing h xs) (hq : q ∉ h :: xs) : (l.init q).IsRing h xs := by
  have hother : ∀ a ∈ h :: xs, a ≠ q := by
    rintro a ha rfl
    exact hq ha
  exact hr.congr (fun a ha => Function.update_of_ne (hother a ha) _ _)
    fun a ha => Function.update_of_ne (hother a ha) _ _

/-- **Insert at the tail.** -/
theorem IsRing.insertTail (hr : l.IsRing h xs) (hq : q ∉ h :: xs) :
    (l.insertTail h q).IsRing h (xs ++ [q]) := by
  have hlast := hr.last
  obtain ⟨front, hfront⟩ := List.getLast?_eq_some_iff.mp hlast
  have hnodup := hr.nodup
  have hhead : h ∉ xs := (List.nodup_cons.mp hnodup).1
  have hne : q ≠ l.prev h := by
    rintro rfl
    exact hq (List.mem_of_getLast? hlast)
  have hqh : q ≠ h := by
    rintro rfl
    exact hq List.mem_cons_self
  have htail : ∀ b ∈ xs, b ≠ q ∧ b ≠ h := by
    refine fun b hb => ⟨?_, ?_⟩
    · rintro rfl
      exact hq (List.mem_cons_of_mem h hb)
    · rintro rfl
      exact hhead hb
  rw [← List.append_nil xs, isRing_append] at hr
  refine isRing_append.mpr ⟨?_, ?_, ?_, ?_⟩
  · rw [← List.cons_append]
    exact List.nodup_append.mpr ⟨hnodup, List.nodup_singleton q, fun a ha b hb => by
      rw [List.mem_singleton.mp hb]
      rintro rfl
      exact hq ha⟩
  · -- the nodes that were there: only the last one points elsewhere now
    refine chain_congr hr.2.1 (fun a ha => ?_) fun b hb => ?_
    · rw [hfront, List.dropLast_concat] at ha
      rw [hfront] at hq hnodup
      have hnew : a ≠ q := by
        rintro rfl
        exact hq (List.mem_append_left _ ha)
      have hinner : a ≠ l.prev h := by
        rintro rfl
        exact (List.nodup_append.mp hnodup).2.2 _ ha _ (List.mem_singleton_self _) rfl
      rw [insertTail_next, Function.update_of_ne hinner, Function.update_of_ne hnew]
    · obtain ⟨hnew, hinner⟩ := htail b hb
      rw [insertTail_prev, Function.update_of_ne hinner, Function.update_of_ne hnew]
  · refine .cons_cons ⟨?_, ?_⟩ (.singleton h)
    · rw [insertTail_next, Function.update_of_ne hne, Function.update_self]
    · rw [insertTail_prev, Function.update_self]
  · intro a ha b hb
    rw [hlast, Option.mem_some_iff] at ha
    rw [← ha, ← Option.some.inj hb]
    constructor
    · rw [insertTail_next, Function.update_self]
    · rw [insertTail_prev, Function.update_of_ne hqh, Function.update_self]

/-- **What `remove` links.** If the node points back to the last of `xs` and
    on to the first of `ys`, then whatever was between them is out. -/
theorem IsRing.unlink {zs : List ν} (hr : l.IsRing h (xs ++ zs ++ ys))
    (hprev : (h :: xs).getLast? = some (l.prev q)) (hnext : (ys ++ [h]).head? = some (l.next q)) :
    (l.remove q).IsRing h (xs ++ ys) := by
  obtain ⟨front, hfront⟩ := List.getLast?_eq_some_iff.mp hprev
  obtain ⟨back, hback⟩ := List.head?_eq_some_iff.mp hnext
  have hnodup : (h :: (xs ++ ys)).Nodup := by
    refine hr.nodup.sublist (List.Sublist.cons_cons h ?_)
    rw [List.append_assoc]
    exact List.Sublist.append_left (List.sublist_append_right zs ys) xs
  have hapart : ∀ a ∈ h :: xs, a ∉ ys := by
    rw [← List.cons_append] at hnodup
    exact fun a ha hmem => (List.nodup_append.mp hnodup).2.2 a ha a hmem rfl
  have hhead : h ∉ xs ++ ys := (List.nodup_cons.mp hnodup).1
  obtain ⟨-, hleft, -, -⟩ := isRing_append.mp (List.append_assoc xs zs ys ▸ hr)
  obtain ⟨-, -, hright, -⟩ := isRing_append.mp hr
  refine isRing_append.mpr ⟨hnodup, ?_, ?_, ?_⟩
  · refine chain_congr hleft (fun a ha => ?_) fun b hb => ?_
    · rw [hfront, List.dropLast_concat] at ha
      have hinner : a ≠ l.prev q := by
        rintro rfl
        have hfirst : (h :: xs).Nodup := hnodup.sublist
          (List.Sublist.cons_cons h (List.sublist_append_left xs ys))
        rw [hfront] at hfirst
        exact (List.nodup_append.mp hfirst).2.2 _ ha _ (List.mem_singleton_self _) rfl
      rw [remove_next, Function.update_of_ne hinner]
    · have hinner : b ≠ l.next q := by
        rintro rfl
        have hmem : l.next q ∈ ys ++ [h] := List.mem_of_head? hnext
        rcases List.mem_append.mp hmem with hmem | hmem
        · exact hapart _ (List.mem_cons_of_mem h hb) hmem
        · rw [List.mem_singleton.mp hmem] at hb
          exact hhead (List.mem_append_left _ hb)
      rw [remove_prev, Function.update_of_ne hinner]
  · refine chain_congr hright (fun a ha => ?_) fun b hb => ?_
    · rw [List.dropLast_concat] at ha
      have hinner : a ≠ l.prev q := by
        rintro rfl
        exact hapart _ (List.mem_of_getLast? hprev) ha
      rw [remove_next, Function.update_of_ne hinner]
    · have hinner : b ≠ l.next q := by
        rintro rfl
        have hlast : (ys ++ [h]).Nodup := by
          refine List.nodup_append.mpr ⟨(List.nodup_append.mp (List.nodup_cons.mp hnodup).2).2.1,
            List.nodup_singleton h, fun a ha b' hb' => ?_⟩
          rw [List.mem_singleton.mp hb']
          rintro rfl
          exact hhead (List.mem_append_right _ ha)
        rw [hback] at hlast hb
        exact (List.nodup_cons.mp hlast).1 hb
      rw [remove_prev, Function.update_of_ne hinner]
  · intro a ha b hb
    rw [hprev, Option.mem_some_iff] at ha
    rw [hnext, Option.mem_some_iff] at hb
    rw [← ha, ← hb]
    exact ⟨by rw [remove_next, Function.update_self], by rw [remove_prev, Function.update_self]⟩

/-- **Remove.** -/
theorem IsRing.remove (hr : l.IsRing h (xs ++ q :: ys)) : (l.remove q).IsRing h (xs ++ ys) := by
  obtain ⟨hprev, hnext⟩ := hr.neighbours
  rw [← List.singleton_append, ← List.append_assoc] at hr
  exact hr.unlink hprev hnext

/-! ## Loops -/

theorem nodesFrom_eq (hr : l.IsRing h (xs ++ ys)) {n : Nat} (hn : ys.length ≤ n) {x : ν}
    (hx : (ys ++ [h]).head? = some x) : l.nodesFrom h n x = ys := by
  induction ys generalizing xs n x with
  | nil =>
    rw [← Option.some.inj hx]
    cases n with
    | zero => rfl
    | succ n => exact if_pos rfl
  | cons y ys ih =>
    rw [← Option.some.inj hx]
    cases n with
    | zero => cases hn
    | succ n =>
      have hne : y ≠ h := hr.ne_head (List.mem_append_right xs List.mem_cons_self)
      have hrest : l.nodesFrom h n (l.next y) = ys := by
        have hcut : l.IsRing h ((xs ++ [y]) ++ ys) := by
          rw [List.append_assoc]
          exact hr
        exact ih hcut (Nat.le_of_succ_le_succ hn) hr.neighbours.2
      show (if y = h then [] else y :: l.nodesFrom h n (l.next y)) = y :: ys
      rw [if_neg hne, hrest]

/-- **What a loop visits.** -/
theorem nodes_eq (hr : l.IsRing h xs) {n : Nat} (hn : xs.length ≤ n) : l.nodes n h = xs := by
  have hall : l.IsRing h ([] ++ xs) := hr
  exact nodesFrom_eq hall hn hr.next_head

end operations

end Links

section loops

variable {σ ν : Type*} [DecidableEq ν]

/-- The loop that goes on to the next node before its body is run. -/
def sweep (links : σ → Links ν) (body : σ → ν → σ) (h : ν) : (n : Nat) → (q : ν) → σ → σ
  | 0, _, s => s
  | n + 1, q, s => if q = h then s else sweep links body h n ((links s).next q) (body s q)

/-- The loop that runs its body on the first node until there is none. -/
def drain (links : σ → Links ν) (body : σ → ν → σ) (h : ν) : (n : Nat) → σ → σ
  | 0, s => s
  | n + 1, s =>
    if (links s).next h = h then s else drain links body h n (body s ((links s).next h))

variable {τ : Type*} {links : σ → Links ν} {body : σ → ν → σ} {body' : τ → ν → τ} {h : ν}
  {R : List ν → σ → τ → Prop} {xs ys : List ν} {n : Nat} {s : σ} {t : τ}

/-- **The rule of `sweep`.** Its body may remove the node that it is run for.
    Then the loop does what its body does for each of the nodes that were
    there before it, one after the other. -/
theorem sweep_simulates (hring : ∀ xs s t, R xs s t → (links s).IsRing h xs)
    (hbody : ∀ xs q ys s t, R (xs ++ q :: ys) s t →
      R (xs ++ q :: ys) (body s q) (body' t q) ∨ R (xs ++ ys) (body s q) (body' t q))
    (hR : R (xs ++ ys) s t) (hn : ys.length ≤ n) {x : ν} (hx : (ys ++ [h]).head? = some x) :
    ∃ zs, R zs (sweep links body h n x s) (ys.foldl body' t) := by
  induction ys generalizing xs n x s t with
  | nil =>
    refine ⟨xs ++ [], ?_⟩
    rw [← Option.some.inj hx]
    cases n with
    | zero => exact hR
    | succ n =>
      rw [sweep, if_pos rfl]
      exact hR
  | cons y ys ih =>
    rw [← Option.some.inj hx]
    cases n with
    | zero => cases hn
    | succ n =>
      have hr := hring _ s t hR
      have hne : y ≠ h := hr.ne_head (List.mem_append_right xs List.mem_cons_self)
      have hnext := hr.neighbours.2
      rw [sweep, if_neg hne]
      rcases hbody xs y ys s t hR with hkept | hgone
      · rw [← List.singleton_append, ← List.append_assoc] at hkept
        exact ih hkept (Nat.le_of_succ_le_succ hn) hnext
      · exact ih hgone (Nat.le_of_succ_le_succ hn) hnext

/-- **The rule of `drain`.** Its body removes the node that it is run for. -/
theorem drain_simulates (hring : ∀ xs s t, R xs s t → (links s).IsRing h xs)
    (hbody : ∀ q xs s t, R (q :: xs) s t → R xs (body s q) (body' t q))
    (hR : R xs s t) (hn : xs.length ≤ n) :
    R [] (drain links body h n s) (xs.foldl body' t) := by
  induction xs generalizing n s t with
  | nil =>
    cases n with
    | zero => exact hR
    | succ n =>
      rw [drain, if_pos ((hring _ s t hR).empty_iff.mpr rfl)]
      exact hR
  | cons x xs ih =>
    cases n with
    | zero => cases hn
    | succ n =>
      have hr := hring _ s t hR
      have hfirst : (links s).next h = x := (Option.some.inj hr.next_head).symm
      have hne : (links s).next h ≠ h := fun heq => List.cons_ne_nil x xs (hr.empty_iff.mp heq)
      rw [drain, if_neg hne, hfirst]
      exact ih (hbody x xs s t hR) (Nat.le_of_succ_le_succ hn)

end loops

end Ring
