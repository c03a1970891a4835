import Mathlib

/-! # Reblocking a stream

    A reader of a byte stream that passes on whole units of `u` elements:
    what does not fill a unit is carried over to the next chunk, and the
    carry is flushed when the stream position reaches `stop`. This module
    says what such a reader delivers, whatever way it cuts its deliveries.

    * `Feeds`: what one chunk does: deliveries that are contiguous and
      aligned, and a carry whose length is determined.
    * `Run`: a list of chunks. Empty chunks are passed over, and the reader
      is stuck when a chunk arrives at a position that is not a border.
    * `delivered`: the position a run gets to, from the lengths alone.
    * `Run.payload_le`, `Run.contiguous`, `Run.aligned`, `Run.pos_eq`: nothing
      is lost, repeated or reordered.
    * `Run.not_stuck`, `Run.complete`: a stream that ends at `stop` gets
      through and is delivered as a whole. -/

namespace Rechunk

variable {β : Type*}

/-! ## Deliveries -/

/-- Elements handed on, with the stream position of the first one. -/
structure Delivery (β : Type*) where
  start : Nat
  bytes : List β

/-- All elements handed on. -/
def payload (ds : List (Delivery β)) : List β := ds.flatMap Delivery.bytes

/-- The deliveries follow each other from position `p` on. -/
def Contiguous : Nat → List (Delivery β) → Prop
  | _, [] => True
  | p, d :: ds => d.start = p ∧ Contiguous (p + d.bytes.length) ds

/-- A delivery starts at a border, and ends at one or at `stop`. -/
def Delivery.Aligned (u : Nat) (stop : Int) (d : Delivery β) : Prop :=
  d.start % u = 0 ∧ (d.bytes.length % u = 0 ∨ (d.start + d.bytes.length : Int) = stop)

section deliveries

variable {p : Nat} {d : Delivery β} {ds ds' : List (Delivery β)}

@[simp] theorem payload_nil : payload ([] : List (Delivery β)) = [] := rfl

@[simp] theorem payload_cons : payload (d :: ds) = d.bytes ++ payload ds := rfl

@[simp] theorem payload_append : payload (ds ++ ds') = payload ds ++ payload ds' := by
  simp [payload]

/-- Deliveries of whole units make whole units. -/
theorem payload_length_mod {u : Nat} (h : ∀ d ∈ ds, d.bytes.length % u = 0) :
    (payload ds).length % u = 0 := by
  induction ds with
  | nil => simp
  | cons d ds ih =>
    rw [payload_cons, List.length_append, Nat.add_mod, h d (by simp),
      ih fun e he => h e (by simp [he])]
    simp

theorem contiguous_append (h : Contiguous p ds) (h' : Contiguous (p + (payload ds).length) ds') :
    Contiguous p (ds ++ ds') := by
  induction ds generalizing p with
  | nil => exact h'
  | cons d ds ih =>
    obtain ⟨hstart, hrest⟩ := h
    refine ⟨hstart, ih hrest ?_⟩
    rw [payload_cons, List.length_append] at h'
    rwa [Nat.add_assoc]

end deliveries

/-! ## One chunk -/

/-- Where the reader is: the position of what was delivered so far, and the
    elements carried over. -/
structure State (β : Type*) where
  pos : Nat
  carry : List β

section feed

variable (u : Nat) (stop : Int)

/-- The reader took `chunk` in, delivered `ds` and is left in `s'`. -/
structure Feeds (s : State β) (chunk : List β) (ds : List (Delivery β)) (s' : State β) : Prop where
  payload_eq : payload ds ++ s'.carry = s.carry ++ chunk
  contiguous : Contiguous s.pos ds
  aligned : ∀ d ∈ ds, d.Aligned u stop
  pos_eq : s'.pos = s.pos + (payload ds).length
  carry_length : s'.carry.length =
    if (s.pos + s.carry.length + chunk.length : Int) = stop then 0
    else (s.carry.length + chunk.length) % u

/-! ## A list of chunks -/

/-- The reader took the chunks in one after the other. The last index says
    whether it got stuck at a position that is not a border. -/
inductive Run : State β → List (List β) → List (Delivery β) → State β → Bool → Prop
  | nil {s} : Run s [] [] s false
  | empty {s chunks ds s' stuck} : Run s chunks ds s' stuck → Run s ([] :: chunks) ds s' stuck
  | stuck {s chunk chunks} : chunk ≠ [] → s.pos % u ≠ 0 → Run s (chunk :: chunks) [] s true
  | feed {s s₁ s' chunk chunks ds ds' stuck} : chunk ≠ [] → s.pos % u = 0 →
      Feeds u stop s chunk ds s₁ → Run s₁ chunks ds' s' stuck →
      Run s (chunk :: chunks) (ds ++ ds') s' stuck

/-- The position reached from `pos` with `carried` elements carried over,
    by chunks of the given lengths. -/
def delivered : (pos carried : Nat) → List Nat → Nat
  | pos, _, [] => pos
  | pos, carried, n :: ns =>
    if n = 0 then delivered pos carried ns
    else if pos % u ≠ 0 then pos
    else
      let left := if (pos + carried + n : Int) = stop then 0 else (carried + n) % u
      delivered (pos + (carried + n - left)) left ns

end feed

section run

variable {u : Nat} {stop : Int} {s s' : State β} {chunk : List β} {chunks : List (List β)}
  {ds : List (Delivery β)} {stuck : Bool}

theorem Feeds.length_eq (h : Feeds u stop s chunk ds s') :
    (payload ds).length + s'.carry.length = s.carry.length + chunk.length := by
  have := congrArg List.length h.payload_eq
  simpa only [List.length_append] using this

/-- What was delivered and what is carried are the stream so far. -/
theorem Feeds.stream_eq (h : Feeds u stop s chunk ds s') :
    s'.pos + s'.carry.length = s.pos + s.carry.length + chunk.length := by
  have := h.length_eq
  have := h.pos_eq
  omega

/-- **No loss.** The deliveries of a run are a prefix of its stream. -/
theorem Run.payload_le (h : Run u stop s chunks ds s' stuck) :
    payload ds <+: s.carry ++ chunks.flatten := by
  induction h with
  | nil => exact List.nil_prefix
  | empty _ ih => simpa using ih
  | stuck _ _ => exact List.nil_prefix
  | feed _ _ hfeed _ ih =>
    rw [payload_append, List.flatten_cons, ← List.append_assoc, ← hfeed.payload_eq,
      List.append_assoc]
    exact (List.prefix_append_right_inj _).mpr ih

theorem Run.pos_eq (h : Run u stop s chunks ds s' stuck) :
    s'.pos = s.pos + (payload ds).length := by
  induction h with
  | nil => simp
  | empty _ ih => exact ih
  | stuck _ _ => simp
  | feed _ _ hfeed _ ih =>
    rw [ih, hfeed.pos_eq, payload_append, List.length_append]
    omega

/-- **Order.** The deliveries of a run follow each other. -/
theorem Run.contiguous (h : Run u stop s chunks ds s' stuck) : Contiguous s.pos ds := by
  induction h with
  | nil => trivial
  | empty _ ih => exact ih
  | stuck _ _ => trivial
  | feed _ _ hfeed _ ih =>
    apply contiguous_append hfeed.contiguous
    rwa [← hfeed.pos_eq]

theorem Run.aligned (h : Run u stop s chunks ds s' stuck) : ∀ d ∈ ds, d.Aligned u stop := by
  induction h with
  | nil => simp
  | empty _ ih => exact ih
  | stuck _ _ => simp
  | feed _ _ hfeed _ ih =>
    intro d hd
    rcases List.mem_append.mp hd with hd | hd
    · exact hfeed.aligned d hd
    · exact ih d hd

/-- The position a run reaches depends on the lengths of the chunks only. -/
theorem Run.delivered_eq (h : Run u stop s chunks ds s' stuck) :
    s'.pos = delivered u stop s.pos s.carry.length (chunks.map List.length) := by
  induction h with
  | nil => rfl
  | empty _ ih =>
    rw [ih]
    simp [delivered]
  | stuck hne hborder =>
    rw [List.map_cons, delivered, if_neg (by simpa using hne), if_pos hborder]
  | @feed s s₁ s' chunk chunks ds ds' stuck hne hborder hfeed _ ih =>
    have hlen := hfeed.length_eq
    have hpos := hfeed.pos_eq
    rw [List.map_cons, delivered, if_neg (by simpa using hne), if_neg (by simpa using hborder)]
    dsimp only
    rw [← hfeed.carry_length, ih]
    congr 1
    omega

/-- After a chunk the reader stands at a border, unless the stream is at its end. -/
theorem Feeds.border (h : Feeds u stop s chunk ds s') (hborder : s.pos % u = 0)
    (hmore : (s.pos + s.carry.length + chunk.length : Int) ≠ stop) : s'.pos % u = 0 := by
  have hlen := h.length_eq
  have hcarry := h.carry_length
  rw [if_neg hmore] at hcarry
  have hdiv := Nat.div_add_mod (s.carry.length + chunk.length) u
  have hpay : (payload ds).length = u * ((s.carry.length + chunk.length) / u) := by omega
  rw [h.pos_eq, hpay, Nat.add_mul_mod_self_left, hborder]

/-- A stream that does not go past `stop` never gets the reader stuck. -/
theorem Run.not_stuck (h : Run u stop s chunks ds s' stuck)
    (hstop : (s.pos + s.carry.length + chunks.flatten.length : Int) ≤ stop)
    (hborder : chunks.flatten ≠ [] → s.pos % u = 0) : stuck = false := by
  induction h with
  | nil => rfl
  | empty _ ih => exact ih (by simpa using hstop) (by simpa using hborder)
  | stuck hne hnot =>
    exfalso
    apply hnot
    apply hborder
    simp [hne]
  | @feed s s₁ s' chunk chunks ds ds' stuck hne hat hfeed _ ih =>
    have hstream := hfeed.stream_eq
    rw [List.flatten_cons, List.length_append] at hstop
    apply ih (by omega)
    intro hmore
    have hpos : chunks.flatten.length ≠ 0 := fun h => hmore (List.length_eq_zero_iff.mp h)
    exact hfeed.border hat (by omega)

/-- **Completeness.** A stream that ends at `stop` is delivered as a whole. -/
theorem Run.complete (h : Run u stop s chunks ds s' stuck)
    (hstop : (s.pos + s.carry.length + chunks.flatten.length : Int) = stop)
    (hborder : chunks.flatten ≠ [] → s.pos % u = 0)
    (hdone : chunks.flatten = [] → s.carry = []) :
    payload ds = s.carry ++ chunks.flatten ∧ s'.carry = [] := by
  induction h with
  | nil =>
    have hcarry := hdone rfl
    exact ⟨by simp [hcarry], hcarry⟩
  | empty _ ih =>
    simpa using ih (by simpa using hstop) (by simpa using hborder) (by simpa using hdone)
  | stuck hne hnot =>
    exfalso
    apply hnot
    apply hborder
    simp [hne]
  | @feed s s₁ s' chunk chunks ds ds' stuck hne hat hfeed _ ih =>
    have hstream := hfeed.stream_eq
    rw [List.flatten_cons, List.length_append] at hstop
    have hcarry := hfeed.carry_length
    obtain ⟨hpay, hlast⟩ := ih (by omega)
      (fun hmore => by
        have hpos : chunks.flatten.length ≠ 0 := fun h => hmore (List.length_eq_zero_iff.mp h)
        exact hfeed.border hat (by omega))
      (fun hend => by
        rw [hend, List.length_nil] at hstop
        rw [if_pos (by omega)] at hcarry
        exact List.length_eq_zero_iff.mp hcarry)
    refine ⟨?_, hlast⟩
    rw [payload_append, hpay, ← List.append_assoc, hfeed.payload_eq, List.flatten_cons,
      List.append_assoc]

/-- A first chunk that ends at `stop` within a unit is flushed there. -/
theorem Run.exists_flush (h : Run u stop s (chunk :: chunks) ds s' stuck)
    (hborder : s.pos % u = 0) (hcut : (s.pos + s.carry.length + chunk.length : Int) = stop)
    (hodd : (s.carry.length + chunk.length) % u ≠ 0) (hne : chunk ≠ []) :
    ∃ d ∈ ds, d.bytes.length % u ≠ 0 ∧ (d.start + d.bytes.length : Int) = stop := by
  cases h with
  | empty _ => exact absurd rfl hne
  | stuck _ hnot => exact absurd hborder hnot
  | @feed _ s₁ _ _ _ ds₁ ds' _ _ _ hfeed _ =>
    have hcarry := hfeed.carry_length
    have hlen := hfeed.length_eq
    rw [if_pos hcut] at hcarry
    -- nothing was carried over, so the deliveries of the chunk are no whole units
    have hex : ∃ d ∈ ds₁, d.bytes.length % u ≠ 0 := by
      by_contra hall
      push Not at hall
      have hmod := payload_length_mod hall
      rw [show (payload ds₁).length = s.carry.length + chunk.length by omega] at hmod
      exact hodd hmod
    obtain ⟨d, hd, hmod⟩ := hex
    refine ⟨d, List.mem_append_left _ hd, hmod, ?_⟩
    rcases (hfeed.aligned d hd).2 with hunit | hend
    · exact absurd hunit hmod
    · exact hend

end run

end Rechunk
