import InfoFlow.Proofs.Inference.Runs

namespace InfoFlow

/-- What a chain reports of the divergences that it has met: it has counted all of them, and keeps the first
ones in their order. -/
structure IsReported (log : List Warning) (divergences : Nat) (warnings : List Warning) : Prop where
  divergences_eq : divergences = log.length
  warnings_eq : warnings = log.take (min divergences maxWarnings)

namespace IsReported

theorem nil : IsReported [] 0 [] := ⟨rfl, rfl⟩

/-- One more divergence is counted, and kept if there is room. -/
theorem append {log warnings : List Warning} {divergences : Nat}
    (h : IsReported log divergences warnings) (w : Warning) :
    IsReported (log ++ [w]) (divergences + 1)
      (if warnings.length < maxWarnings then warnings ++ [w] else warnings) := by
  obtain ⟨rfl, rfl⟩ := h
  refine ⟨by simp, ?_⟩
  rw [List.length_take, min_eq_left (min_le_left log.length maxWarnings)]
  by_cases hroom : log.length < maxWarnings
  · have hall : min log.length maxWarnings = log.length := min_eq_left hroom.le
    have hnext : min (log.length + 1) maxWarnings = (log ++ [w]).length := by
      rw [List.length_append, List.length_singleton]
      exact min_eq_left hroom
    rw [hall, if_pos hroom, List.take_length, hnext, List.take_length]
  · have hfull : min log.length maxWarnings = maxWarnings := min_eq_right (not_lt.mp hroom)
    have hnext : min (log.length + 1) maxWarnings = maxWarnings := by omega
    rw [hfull, if_neg (lt_irrefl _), hnext, List.take_append_of_le_length (not_lt.mp hroom)]

end IsReported

variable {α σ : Type} [Scalar α] [RandomWords σ]

namespace PriorChain

section Attempts

variable (m : Model α) (s : σ)

/-- The stream before attempt `j`. -/
def streamAt : Nat → σ
  | 0 => s
  | j + 1 => ((attempt m : Random σ _).run (streamAt j)).2

/-- What attempt `j` comes to. -/
def outcome (j : Nat) : Except (Failure Rejection) (Draw α) :=
  ((attempt m : Random σ _).run (streamAt m s j)).1

/-- The draws that the first `j` attempts record. -/
def recorded (j : Nat) : List (Draw α) :=
  (List.range j).filterMap fun k => (outcome m s k).toOption

/-- The rejections among the first `j` attempts, each with the number of the row that it was made for. -/
def rejections (chain j : Nat) : List Warning :=
  (List.range j).filterMap fun k =>
    match outcome m s k with
    | .error (.error r) => some ⟨chain, (recorded m s k).length, r.1, r.2⟩
    | _ => none

/-- None of the first `j` attempts breaks down. -/
def Ends (j : Nat) : Prop := ∀ k < j, ∀ b, outcome m s k ≠ .error (.breakdown b)

/-- So many consecutive attempts fail, of which `j` is the first, and none breaks down before them. -/
structure Exhausts (attempts j : Nat) : Prop where
  ends_before : Ends m s j
  fails {k : Nat} : k < attempts → ∃ r, outcome m s (j + k) = .error (.error r)

/-- Attempt `j` is the first to break down. -/
structure BreaksDown (b : Breakdown) (j : Nat) : Prop where
  ends_before : Ends m s j
  outcome_eq : outcome m s j = .error (.breakdown b)

end Attempts

variable {m : Model α} {s : σ} {chain j : Nat} {c : PriorChain α}

section Steps

variable {draw : Draw α} {r : Rejection} {failure : Failure Rejection}

theorem Ends.succ (hends : Ends m s j) (h : ∀ b, outcome m s j ≠ .error (.breakdown b)) :
    Ends m s (j + 1) := by
  intro k hk
  rcases Nat.lt_succ_iff_lt_or_eq.mp hk with hlt | rfl
  · exact hends k hlt
  · exact h

theorem recorded_succ_of_ok (h : outcome m s j = .ok draw) :
    recorded m s (j + 1) = recorded m s j ++ [draw] := by
  simp [recorded, List.range_succ, h, Except.toOption]

theorem recorded_succ_of_error (h : outcome m s j = .error failure) :
    recorded m s (j + 1) = recorded m s j := by
  simp [recorded, List.range_succ, h, Except.toOption]

theorem rejections_succ_of_ok (h : outcome m s j = .ok draw) :
    rejections m s chain (j + 1) = rejections m s chain j := by
  simp [rejections, List.range_succ, h]

theorem rejections_succ_of_error (h : outcome m s j = .error (.error r)) :
    rejections m s chain (j + 1) =
      rejections m s chain j ++ [⟨chain, (recorded m s j).length, r.1, r.2⟩] := by
  simp [rejections, List.range_succ, h]

/-- Rows that are recorded stay recorded. -/
theorem length_recorded_mono (m : Model α) (s : σ) :
    Monotone fun j => (recorded m s j).length := by
  refine monotone_nat_of_le_succ fun j => ?_
  cases h : outcome m s j with
  | ok draw => simp [recorded_succ_of_ok h]
  | error failure => simp [recorded_succ_of_error h]

end Steps

/-- A chain is where the first `j` attempts bring it. -/
structure IsAt (m : Model α) (s : σ) (chain j : Nat) (c : PriorChain α) : Prop where
  ends : Ends m s j
  draws_eq : c.draws = (recorded m s j).reverse
  isReported : IsReported (rejections m s chain j) c.divergences c.warnings

theorem IsAt.start (m : Model α) (s : σ) (chain : Nat) : IsAt m s chain 0 ⟨[], 0, []⟩ :=
  ⟨nofun, rfl, .nil⟩

/-- An attempt that succeeds is recorded. -/
theorem IsAt.record {draw : Draw α} (hc : IsAt m s chain j c) (h : outcome m s j = .ok draw) :
    IsAt m s chain (j + 1) { c with draws := draw :: c.draws } where
  ends := hc.ends.succ fun b hb => nomatch h.symm.trans hb
  draws_eq := by
    rw [recorded_succ_of_ok h, List.reverse_append, ← hc.draws_eq]
    rfl
  isReported := by
    rw [rejections_succ_of_ok h]
    exact hc.isReported

/-- An attempt that fails is rejected. -/
theorem IsAt.reject {r : Rejection} (hc : IsAt m s chain j c)
    (h : outcome m s j = .error (.error r)) :
    IsAt m s chain (j + 1) (c.reject chain (recorded m s j).length r) where
  ends := hc.ends.succ fun b hb => nomatch h.symm.trans hb
  draws_eq := by
    rw [recorded_succ_of_error h]
    exact hc.draws_eq
  isReported := by
    rw [rejections_succ_of_error h]
    exact hc.isReported.append _

/-- What recording a row comes to: the first of its attempts that succeeds records it, unless one breaks
down before, or all of them fail. -/
theorem record_isAt (hc : IsAt m s chain j c) (attempts : Nat) :
    (∃ i next, j ≤ i ∧ i < j + attempts ∧ (∃ draw, outcome m s i = .ok draw) ∧
      IsAt m s chain (i + 1) next ∧
      (recorded m s (i + 1)).length = (recorded m s j).length + 1 ∧
      (c.record m chain (recorded m s j).length attempts).run.run (streamAt m s j) =
        (.ok (some next), streamAt m s (i + 1))) ∨
    (Exhausts m s attempts j ∧
      ((c.record m chain (recorded m s j).length attempts).run.run (streamAt m s j)).1 = .ok none) ∨
    ∃ i b, i < j + attempts ∧ BreaksDown m s b i ∧
      (recorded m s i).length = (recorded m s j).length ∧
      ((c.record m chain (recorded m s j).length attempts).run.run (streamAt m s j)).1 =
        .error b := by
  induction attempts generalizing j c with
  | zero => exact .inr (.inl ⟨⟨hc.ends, nofun⟩, rfl⟩)
  | succ attempts ih =>
    have hattempt : (attempt m : Random σ _).run (streamAt m s j) =
        (outcome m s j, streamAt m s (j + 1)) := rfl
    unfold PriorChain.record
    rw [Drawing.run_lift_bind, Random.run_bind_eq, hattempt]
    rcases h : outcome m s j with (r | b) | draw
    · by_cases hlast : attempts = 0
      · subst hlast
        refine .inr (.inl ⟨⟨hc.ends, fun {k} hk => ⟨r, ?_⟩⟩, rfl⟩)
        obtain rfl : k = 0 := by omega
        exact h
      · simp only [hlast, if_false]
        have hrest := ih (hc.reject h)
        rw [recorded_succ_of_error h] at hrest
        rcases hrest with ⟨i, next, hji, hi, hdraw, hnext, hrows, heq⟩ | ⟨hfail, hnone⟩ |
          ⟨i, b, hi, hbroken, hrows, heq⟩
        · exact .inl ⟨i, next, by omega, by omega, hdraw, hnext, hrows, heq⟩
        · refine .inr (.inl ⟨⟨hc.ends, fun {k} hk => ?_⟩, hnone⟩)
          cases k with
          | zero => exact ⟨r, h⟩
          | succ k =>
            obtain ⟨r, hr⟩ := hfail.fails (k := k) (by omega)
            exact ⟨r, by rwa [Nat.add_right_comm, Nat.add_assoc] at hr⟩
        · exact .inr (.inr ⟨i, b, by omega, hbroken, hrows, heq⟩)
    · exact .inr (.inr ⟨j, b, by omega, ⟨hc.ends, h⟩, rfl, rfl⟩)
    · refine .inl ⟨j, _, le_rfl, by omega, ⟨draw, h⟩, hc.record h, ?_, rfl⟩
      rw [recorded_succ_of_ok h, List.length_append, List.length_singleton]

/-- Consecutive attempts do not all fail if one of them records a row. -/
theorem not_exhausts_of_ok {attempts i k : Nat} {draw : Draw α} (h : outcome m s i = .ok draw)
    (hki : k ≤ i) (hi : i < k + attempts) : ¬ Exhausts m s attempts k := by
  intro hexhausts
  obtain ⟨r, hr⟩ := hexhausts.fails (k := i - k) (by omega)
  rw [Nat.add_sub_cancel' hki, h] at hr
  cases hr

/-- Consecutive attempts do not all fail if one breaks down, of them or before them. -/
theorem BreaksDown.not_exhausts {attempts i k : Nat} {b : Breakdown} (h : BreaksDown m s b i)
    (hi : i < k + attempts) : ¬ Exhausts m s attempts k := by
  intro hexhausts
  by_cases hik : i < k
  · exact hexhausts.ends_before i hik b h.outcome_eq
  · obtain ⟨r, hr⟩ := hexhausts.fails (k := i - k) (by omega)
    rw [Nat.add_sub_cancel' (not_lt.mp hik), h.outcome_eq] at hr
    cases hr

/-- What recording `n` rows comes to: an attempt at which the last of them is recorded, attempts that
exhaust one of them, or an attempt that breaks down. -/
theorem run_isAt (hc : IsAt m s chain j c) (attempts n : Nat) :
    (∃ i final, j ≤ i ∧ IsAt m s chain i final ∧
      (recorded m s i).length = (recorded m s j).length + n ∧
      (∀ k, j ≤ k → k < i → (recorded m s k).length < (recorded m s j).length + n ∧
        ¬ Exhausts m s attempts k) ∧
      ((run m chain attempts n (recorded m s j).length c).run.run (streamAt m s j)).1 =
        .ok (some final)) ∨
    ((∃ k, j ≤ k ∧ (recorded m s k).length < (recorded m s j).length + n ∧
      Exhausts m s attempts k) ∧
      ((run m chain attempts n (recorded m s j).length c).run.run (streamAt m s j)).1 = .ok none) ∨
    ∃ i b, BreaksDown m s b i ∧ (recorded m s i).length < (recorded m s j).length + n ∧
      (∀ k, j ≤ k → ¬ Exhausts m s attempts k) ∧
      ((run m chain attempts n (recorded m s j).length c).run.run (streamAt m s j)).1 = .error b := by
  induction n generalizing j c with
  | zero => exact .inl ⟨j, c, le_rfl, hc, rfl, fun k hjk hkj => absurd hkj (not_lt.mpr hjk), rfl⟩
  | succ n ih =>
    unfold run
    rw [ExceptT.run_bind, Random.run_bind_eq]
    rcases record_isAt hc attempts with
      ⟨i, next, hji, hi, ⟨draw, hdraw⟩, hnext, hrows, heq⟩ | ⟨hexhausts, hnone⟩ |
        ⟨i, b, hi, hbroken, hrows, heq⟩
    · rw [heq, ← hrows]
      -- up to attempt `i`, the row is the first one
      have hlast : (recorded m s (i + 1)).length = (recorded m s i).length + 1 := by
        rw [recorded_succ_of_ok hdraw, List.length_append, List.length_singleton]
      have hfirst (k : Nat) (hjk : j ≤ k) (hki : k ≤ i) :
          (recorded m s k).length < (recorded m s j).length + (n + 1) ∧
            ¬ Exhausts m s attempts k := by
        have hbefore : (recorded m s k).length ≤ (recorded m s i).length :=
          length_recorded_mono m s hki
        exact ⟨by omega, not_exhausts_of_ok hdraw hki (by omega)⟩
      rcases ih hnext with
        ⟨l, final, hil, hfinal, htotal, hrest, hanswer⟩ | ⟨⟨k, hik, hk, hexhausts⟩, hnone⟩ |
          ⟨l, b, hbroken, hl, hrest, hanswer⟩
      · refine .inl ⟨l, final, by omega, hfinal, by omega, fun k hjk hkl => ?_, hanswer⟩
        by_cases hki : k ≤ i
        · exact hfirst k hjk hki
        · obtain ⟨hless, hnot⟩ := hrest k (by omega) hkl
          exact ⟨by omega, hnot⟩
      · exact .inr (.inl ⟨⟨k, by omega, by omega, hexhausts⟩, hnone⟩)
      · refine .inr (.inr ⟨l, b, hbroken, by omega, fun k hjk => ?_, hanswer⟩)
        by_cases hki : k ≤ i
        · exact (hfirst k hjk hki).2
        · exact hrest k (by omega)
    · refine .inr (.inl ⟨⟨j, le_rfl, by omega, hexhausts⟩, ?_⟩)
      rw [hnone]
      rfl
    · refine .inr (.inr ⟨i, b, hbroken, by omega, fun k hjk => hbroken.not_exhausts (by omega), ?_⟩)
      rw [heq]
      rfl

end PriorChain

/-- A chain of prior draws has recorded so many rows in so many attempts, and reports the rejections among
them. -/
structure ChainRun.IsOfAttempts (run : ChainRun α) (m : Model α) (s : σ) (chain rows attempts : Nat) :
    Prop where
  draws_eq : run.draws = PriorChain.recorded m s attempts
  length_draws : run.draws.length = rows
  /-- The last attempt records the last row. -/
  length_recorded_lt {k : Nat} : k < attempts → (PriorChain.recorded m s k).length < rows
  isReported : IsReported (PriorChain.rejections m s chain attempts) run.divergences run.warnings

/-- A chain of prior draws ends with all its rows, fails where it has exhausted one of them, and then only,
or breaks down with one of its attempts. -/
theorem priorChain_cases (m : Model α) (config : InferenceConfig) (allowance : Option Nat)
    (chain : Nat) (s : σ) :
    let rows := allowed allowance config.sampleCount.toNat
    let attempts := config.maxInitAttempts.toNat
    let answer := ((priorChain m config allowance chain : Random σ _).run s).1
    let exhausts := ∃ j, (PriorChain.recorded m s j).length < rows ∧
      PriorChain.Exhausts m s attempts j
    (¬ exhausts ∧ ∃ run made, answer = .ok run ∧ run.IsOfAttempts m s chain rows made) ∨
      (exhausts ∧ answer = .error (.error (.noValidSample chain attempts))) ∨
      ¬ exhausts ∧ ∃ j b, (PriorChain.recorded m s j).length < rows ∧
        PriorChain.BreaksDown m s b j ∧ answer = .error (.breakdown b) := by
  intro rows attempts answer exhausts
  have hanswer : answer =
      ((((PriorChain.run m chain attempts rows 0 ⟨[], 0, []⟩).run.run s).1.mapError .breakdown).bind
        fun final => final.elim (.error (.error (.noValidSample chain attempts))) fun c =>
          .ok ⟨c.draws.reverse, 1, c.divergences, c.warnings, rows < config.sampleCount.toNat⟩) := by
    change ((priorChain m config allowance chain).run s).1 = _
    unfold priorChain
    rw [Random.run_bind_eq]
    rcases ((PriorChain.run m chain attempts rows 0 ⟨[], 0, []⟩).run.run s).1 with b | (_ | c) <;> rfl
  have hempty : (PriorChain.recorded m s 0).length + rows = rows := Nat.zero_add rows
  rcases PriorChain.run_isAt (PriorChain.IsAt.start m s chain) attempts rows with
    ⟨i, final, -, hfinal, hrows, hall, hfound⟩ | ⟨⟨j, -, hj, hexhausts⟩, hnone⟩ |
      ⟨i, b, hbroken, hrows, hall, hfound⟩
  · rw [hempty] at hrows hall
    change ((PriorChain.run m chain attempts rows 0 ⟨[], 0, []⟩).run.run s).1 = _ at hfound
    rw [hfound] at hanswer
    refine .inl ⟨?_, _, i, hanswer, ?_, ?_, fun hk => (hall _ (Nat.zero_le _) hk).1,
      hfinal.isReported⟩
    · rintro ⟨j, hj, hexhausts⟩
      have hji : j < i := by
        by_contra hij
        have hmono : (PriorChain.recorded m s i).length ≤ (PriorChain.recorded m s j).length :=
          PriorChain.length_recorded_mono m s (not_lt.mp hij)
        omega
      exact (hall j (Nat.zero_le j) hji).2 hexhausts
    · rw [hfinal.draws_eq, List.reverse_reverse]
    · rw [hfinal.draws_eq, List.reverse_reverse, hrows]
  · rw [hempty] at hj
    change ((PriorChain.run m chain attempts rows 0 ⟨[], 0, []⟩).run.run s).1 = _ at hnone
    rw [hnone] at hanswer
    exact .inr (.inl ⟨⟨j, hj, hexhausts⟩, hanswer⟩)
  · rw [hempty] at hrows
    change ((PriorChain.run m chain attempts rows 0 ⟨[], 0, []⟩).run.run s).1 = _ at hfound
    rw [hfound] at hanswer
    refine .inr (.inr ⟨?_, i, b, hrows, hbroken, hanswer⟩)
    rintro ⟨j, -, hexhausts⟩
    exact hall j (Nat.zero_le j) hexhausts

end InfoFlow
