import Mathlib

/-! # The path of a uri

    `mg_parse_uri` goes over a uri with a state for the part that it expects.
    Its callers in the server pass null for every part but the path, which
    is what is kept here. It is empty if none is found, and if the uri is
    refused.

    * `uriRound`: one round of the loop.
    * `mgParseUri`, `mgParseUri_fuel`: the loop, which ends by itself.
    * `lastSegment`: what `get_play_url` takes of the path.
    * `mgParseUri_address`: the path of an address with a port. -/

namespace Libms

/-- The states of `mg_parse_uri`. -/
inductive UriState where
  | start
  | schemeOrPort
  | userInfo
  | host
  | port
  | rest

/-- Up to one of the separators, or to the end. -/
def skipTo (seps : List Char) (p : List Char) : List Char := p.dropWhile fun c => !seps.contains c

/-- One round of the loop at `p`, which is not at the end: the next state and
    position, or the path. -/
def uriRound (state : UriState) (p : List Char) : (UriState × List Char) ⊕ List Char :=
  match state with
  | .start =>
    if p.head? = some '[' then .inl (.host, p)
    else
      match skipTo [':', '/'] p with
      | ':' :: q => .inl (.schemeOrPort, ':' :: q)
      | '/' :: q => .inl (.rest, '/' :: q)
      | _ => .inl (.start, [])
  | .schemeOrPort =>
    if "://".toList.isPrefixOf p then .inl (.userInfo, p.drop 3) else .inl (.port, p)
  | .userInfo =>
    match skipTo ['@', '[', '/'] p with
    | '@' :: q => .inl (.host, '@' :: q)
    -- backtrack and parse as host
    | _ => .inl (.host, p)
  | .host =>
    let p := if p.head? = some '@' then p.drop 1 else p
    if p.head? = some '[' then
      match skipTo [']'] p with
      -- no bracket is found, and nothing is stored
      | [] => .inr []
      | _ :: ':' :: q => .inl (.port, ':' :: q)
      | _ :: '/' :: q => .inl (.rest, '/' :: q)
      | _ :: q => .inl (.host, q)
    else
      match skipTo [':', '/'] p with
      | ':' :: q => .inl (.port, ':' :: q)
      | '/' :: q => .inl (.rest, '/' :: q)
      | _ => .inl (.host, [])
  | .port => .inl (.rest, skipTo ['/'] (p.drop 1))
  -- what is left behind the path is query and fragment
  | .rest => .inr (p.takeWhile fun c => c ≠ '?' && c ≠ '#')

/-- The loop, `n` rounds at most. -/
def parseUriLoop : (n : Nat) → UriState → List Char → List Char
  | 0, _, _ => []
  | _ + 1, _, [] => []
  | n + 1, state, c :: p =>
    match uriRound state (c :: p) with
    | .inl (state, p) => parseUriLoop n state p
    | .inr path => path

/-- `mg_parse_uri`: the path. -/
def mgParseUri (uri : List Char) : List Char := parseUriLoop (uri.length + 6) .start uri

/-! ## The loop ends -/

/-- How far a state is from the last one. -/
def UriState.rank : UriState → Nat
  | .start => 5
  | .schemeOrPort => 4
  | .userInfo => 3
  | .host => 2
  | .port => 1
  | .rest => 0

section loop

variable {seps p q : List Char} {state state' : UriState} {c : Char}

theorem skipTo_length_le (seps p : List Char) : (skipTo seps p).length ≤ p.length :=
  (List.dropWhile_sublist _).length_le

theorem length_of_skipTo (h : skipTo seps p = c :: q) : q.length + 1 ≤ p.length := by
  have hle := skipTo_length_le seps p
  rwa [h, List.length_cons] at hle

/-- A round that stops at a separator and goes on to a later state. -/
theorem less_of_skipTo {n : Nat} (h : skipTo seps p = c :: q) (hp : p.length ≤ n)
    (hrank : state'.rank < state.rank) : (c :: q).length + state'.rank < n + state.rank := by
  have hle := length_of_skipTo h
  rw [List.length_cons]
  omega

/-- Every round comes closer to the end, or ends the loop. -/
theorem uriRound_less (h : uriRound state (c :: p) = .inl (state', q)) :
    q.length + state'.rank < (c :: p).length + state.rank := by
  cases state with
  | start =>
    simp only [uriRound] at h
    split at h
    · cases h
      exact Nat.add_lt_add_left (by decide) _
    · split at h
      · rename_i hskip
        cases h
        exact less_of_skipTo hskip (Nat.le_refl _) (by decide)
      · rename_i hskip
        cases h
        exact less_of_skipTo hskip (Nat.le_refl _) (by decide)
      · cases h
        exact Nat.add_lt_add_right (Nat.succ_pos _) _
  | schemeOrPort =>
    simp only [uriRound] at h
    split at h
    · cases h
      exact Nat.add_lt_add_of_le_of_lt (List.drop_sublist ..).length_le (by decide)
    · cases h
      exact Nat.add_lt_add_left (by decide) _
  | userInfo =>
    simp only [uriRound] at h
    split at h
    · rename_i hskip
      cases h
      exact less_of_skipTo hskip (Nat.le_refl _) (by decide)
    · cases h
      exact Nat.add_lt_add_left (by decide) _
  | host =>
    simp only [uriRound] at h
    have hdrop : (if (c :: p).head? = some '@' then (c :: p).drop 1 else c :: p).length ≤
        (c :: p).length := by
      split
      · exact (List.drop_sublist ..).length_le
      · exact Nat.le_refl _
    generalize (if (c :: p).head? = some '@' then (c :: p).drop 1 else c :: p) = p' at h hdrop
    split at h
    · split at h
      · cases h
      all_goals
        -- the bracket is passed, so the host may go on behind it
        rename_i hskip
        have hle := length_of_skipTo hskip
        cases h
        simp only [UriState.rank, List.length_cons] at hle hdrop ⊢
        omega
    · split at h
      · rename_i hskip
        cases h
        exact less_of_skipTo hskip hdrop (by decide)
      · rename_i hskip
        cases h
        exact less_of_skipTo hskip hdrop (by decide)
      · cases h
        exact Nat.add_lt_add_right (Nat.succ_pos _) _
  | port =>
    simp only [uriRound] at h
    cases h
    exact Nat.add_lt_add_of_le_of_lt
      ((skipTo_length_le ..).trans (List.drop_sublist ..).length_le) (by decide)
  | rest => cases h

theorem parseUriLoop_inl {n : Nat} (hp : p ≠ []) (h : uriRound state p = .inl (state', q)) :
    parseUriLoop (n + 1) state p = parseUriLoop n state' q := by
  cases p with
  | nil => exact absurd rfl hp
  | cons c p => simp only [parseUriLoop, h]

theorem parseUriLoop_inr {n : Nat} (hp : p ≠ []) (h : uriRound state p = .inr q) :
    parseUriLoop (n + 1) state p = q := by
  cases p with
  | nil => exact absurd rfl hp
  | cons c p => simp only [parseUriLoop, h]

/-- With enough rounds the number of rounds does not matter. -/
theorem parseUriLoop_enough {n m : Nat} (hn : p.length + state.rank < n)
    (hm : p.length + state.rank < m) : parseUriLoop n state p = parseUriLoop m state p := by
  induction n generalizing m state p with
  | zero => omega
  | succ n ih =>
    cases m with
    | zero => omega
    | succ m =>
      cases p with
      | nil => rfl
      | cons c p =>
        simp only [parseUriLoop]
        cases hround : uriRound state (c :: p) with
        | inr path => rfl
        | inl next =>
          have hless := uriRound_less hround
          exact ih (by omega) (by omega)

/-- The loop of `mg_parse_uri` ends by itself. -/
theorem mgParseUri_fuel (uri : List Char) {n : Nat} (h : uri.length + 5 < n) :
    parseUriLoop n .start uri = mgParseUri uri :=
  parseUriLoop_enough h (Nat.lt_succ_self _)

end loop

/-! ## The path -/

/-- The loop of `get_play_url` over the path: the text behind the last slash. -/
def scanSegment : (start p : List Char) → List Char
  | start, [] => start
  | start, c :: p => scanSegment (if c = '/' then p else start) p

/-- The last segment of a path. -/
def lastSegment (path : List Char) : List Char := scanSegment path path

section path

variable {p rest : List Char} {state : UriState} {c : Char}

theorem mem_scanSegment {start : List Char} (h : c ∈ scanSegment start p) : c ∈ start ∨ c ∈ p := by
  induction p generalizing start with
  | nil => exact Or.inl h
  | cons x p ih =>
    rcases ih h with hstart | hp
    · split at hstart
      · exact Or.inr (List.mem_cons_of_mem x hstart)
      · exact Or.inl hstart
    · exact Or.inr (List.mem_cons_of_mem x hp)

theorem mem_lastSegment (h : c ∈ lastSegment p) : c ∈ p := by
  rcases mem_scanSegment h with h | h
  · exact h
  · exact h

theorem uriRound_path {path : List Char} (h : uriRound state p = .inr path) :
    path = [] ∨ path = p.takeWhile fun c => c ≠ '?' && c ≠ '#' := by
  cases state with
  | rest =>
    cases h
    exact Or.inr rfl
  | start =>
    simp only [uriRound] at h
    split at h
    · cases h
    · split at h <;> cases h
  | schemeOrPort =>
    simp only [uriRound] at h
    split at h <;> cases h
  | userInfo =>
    simp only [uriRound] at h
    split at h <;> cases h
  | port => cases h
  | host =>
    simp only [uriRound] at h
    generalize (if p.head? = some '@' then p.drop 1 else p) = p' at h
    split at h
    · split at h
      · cases h
        exact Or.inl rfl
      all_goals cases h
    · split at h <;> cases h

/-- A path has no query and no fragment. -/
theorem mem_parseUriLoop {n : Nat} (h : c ∈ parseUriLoop n state p) : c ≠ '?' ∧ c ≠ '#' := by
  induction n generalizing state p with
  | zero => cases h
  | succ n ih =>
    cases p with
    | nil => cases h
    | cons x p =>
      simp only [parseUriLoop] at h
      cases hround : uriRound state (x :: p) with
      | inl next =>
        rw [hround] at h
        exact ih h
      | inr path =>
        rw [hround] at h
        rcases uriRound_path hround with hpath | hpath
        · rw [hpath] at h
          cases h
        · rw [hpath] at h
          simpa using List.mem_takeWhile_imp h

/-- Text without a separator is passed over. -/
theorem skipTo_append {seps : List Char} (hp : ∀ c ∈ p, c ∉ seps) (hc : c ∈ seps) :
    skipTo seps (p ++ c :: rest) = c :: rest := by
  have hskip : ∀ x ∈ p, (!seps.contains x) = true := by
    intro x hx
    simpa using hp x hx
  rw [skipTo, List.dropWhile_append_of_pos hskip, List.dropWhile_cons_of_neg (by simpa using hc)]

/-- The path of an address with a port. -/
theorem mgParseUri_address {port : List Char}
    (hport : ∀ c ∈ port, c ≠ '@' ∧ c ≠ '[' ∧ c ≠ '/') :
    mgParseUri ("http://127.0.0.1:".toList ++ port ++ '/' :: rest) =
      '/' :: rest.takeWhile fun c => c ≠ '?' && c ≠ '#' := by
  have hhost : ∀ c ∈ "127.0.0.1:".toList, c ∉ ['@', '[', '/'] := by simp
  have hnone : ∀ c ∈ "127.0.0.1:".toList ++ port, c ∉ ['@', '[', '/'] := by
    intro c hc
    rcases List.mem_append.mp hc with hc | hc
    · exact hhost c hc
    · simpa using hport c hc
  have huser : skipTo ['@', '[', '/'] ("127.0.0.1:".toList ++ port ++ '/' :: rest) = '/' :: rest :=
    skipTo_append hnone (by decide)
  have hpath : skipTo ['/'] (port ++ '/' :: rest) = '/' :: rest := by
    apply skipTo_append
    · intro c hc hslash
      exact (hport c hc).2.2 (List.mem_singleton.mp hslash)
    · exact List.mem_singleton.mpr rfl
  -- the scheme, the separator behind it, and no user
  have h₁ : uriRound .start ("http://127.0.0.1:".toList ++ port ++ '/' :: rest) =
      .inl (.schemeOrPort, "://127.0.0.1:".toList ++ port ++ '/' :: rest) := rfl
  have h₂ : uriRound .schemeOrPort ("://127.0.0.1:".toList ++ port ++ '/' :: rest) =
      .inl (.userInfo, "127.0.0.1:".toList ++ port ++ '/' :: rest) := rfl
  have h₃ : uriRound .userInfo ("127.0.0.1:".toList ++ port ++ '/' :: rest) =
      .inl (.host, "127.0.0.1:".toList ++ port ++ '/' :: rest) := by
    rw [uriRound, huser]
    rfl
  -- the host and the port, and the path
  have h₄ : uriRound .host ("127.0.0.1:".toList ++ port ++ '/' :: rest) =
      .inl (.port, ':' :: (port ++ '/' :: rest)) := rfl
  have h₅ : uriRound .port (':' :: (port ++ '/' :: rest)) = .inl (.rest, '/' :: rest) := by
    simp only [uriRound, List.drop_one, List.tail_cons, hpath]
  rw [mgParseUri, parseUriLoop_inl (by simp) h₁, parseUriLoop_inl (by simp) h₂,
    parseUriLoop_inl (by simp) h₃, parseUriLoop_inl (by simp) h₄, parseUriLoop_inl (by simp) h₅,
    parseUriLoop_inr (by simp) rfl, List.takeWhile_cons_of_pos (by decide)]

end path

end Libms
