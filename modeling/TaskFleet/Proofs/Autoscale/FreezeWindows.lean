/-
  TaskFleet.Proofs.Autoscale.FreezeWindows — when schedules freeze a pool, and what an unfreeze does to that.

  Whether a pool is frozen depends on nothing but the minute of the week in UTC. A schedule covers
  an instant if it lists the day and the minute lies between its bounds, both of them included and
  over midnight if need be; the first schedule that covers the instant gives the reason. A one-time
  unfreeze overrides that until its time has come, as long as the time is read as what it is: a
  stored time has no sign, but it is compared as a number with one.
  - `minute?_eq_some_iff`: which bounds are well-formed, and what they name.
  - `onClock_iff`: day and minute of an instant, from the Mondays on either side of 1970.
  - `holds_iff`: which instants a schedule covers.
  - `windows_follow_the_week`: every list of schedules, at every instant.
  - `overrides_iff`: where an unfreeze does what it is for.
  - `unfreezes_override_windows`: every list of schedules, every instant and every stored time.
  - `last_unfreeze_leaves_frozen`: the latest of all times opens nothing.
-/

import TaskFleet.Autoscale.Freeze
import Mathlib.Data.Nat.Digits.Defs

namespace TaskFleet.Freeze

/-! ## Bounds -/

/-- A number in decimal digits, with a plus sign or none in front. -/
def Writes (cs : List Char) (n : Nat) : Prop :=
  ∃ ds : List Nat, ds ≠ [] ∧ (∀ d ∈ ds, d < 10) ∧ n = Nat.ofDigits 10 ds.reverse ∧
    (cs = ds.map Text.digitChar ∨ cs = '+' :: ds.map Text.digitChar)

/-- A well-formed bound, between blanks or not: an hour and a minute with a colon between them. -/
def NamesMinute (bound : String) (minute : Nat) : Prop :=
  ∃ before after hours minutes, Text.trim bound.toList = before ++ ':' :: after ∧ Writes before hours ∧
    Writes after minutes ∧ hours < 24 ∧ minutes < 60 ∧ minute = hours * 60 + minutes

variable {c sep : Char} {d n m : Nat} {cs before after : List Char} {ds : List Nat} {bound : String}

theorem digit?_eq_some_iff : Text.digit? c = some d ↔ d < 10 ∧ c = Text.digitChar d := by
  constructor
  · intro h
    unfold Text.digit? at h
    split at h
    · next hc =>
      obtain rfl := Option.some.inj h
      have hlow : 48 ≤ c.toNat := hc.1
      have hhigh : c.toNat ≤ 57 := hc.2
      refine ⟨by omega, ?_⟩
      rw [Text.digitChar, Nat.mod_eq_of_lt (by omega), show 48 + (c.toNat - 48) = c.toNat by omega, Char.ofNat_toNat]
    · cases h
  · rintro ⟨hd, rfl⟩
    have hall : ∀ d < 10, Text.digit? (Text.digitChar d) = some d := by decide
    exact hall d hd

theorem mapM_digit?_eq_some_iff :
    cs.mapM Text.digit? = some ds ↔ (∀ d ∈ ds, d < 10) ∧ cs = ds.map Text.digitChar := by
  induction cs generalizing ds with
  | nil => cases ds <;> simp
  | cons c cs ih =>
    simp only [List.mapM_cons, Option.bind_eq_bind, Option.bind_eq_some_iff, digit?_eq_some_iff, ih, Option.pure_def,
      Option.some.injEq]
    constructor
    · rintro ⟨d, ⟨hd, rfl⟩, rest, ⟨hrest, rfl⟩, rfl⟩
      exact ⟨List.forall_mem_cons.2 ⟨hd, hrest⟩, rfl⟩
    · rintro ⟨hds, hcs⟩
      cases ds with
      | nil => cases hcs
      | cons d rest =>
        obtain ⟨hd, hrest⟩ := List.forall_mem_cons.1 hds
        obtain ⟨hc, hcs⟩ := List.cons.inj hcs
        exact ⟨d, ⟨hd, hc⟩, rest, ⟨hrest, hcs⟩, rfl⟩

/-- The digits of a text come with the most significant one first. -/
theorem ofDigits_eq (ds : List Nat) : Text.ofDigits ds = Nat.ofDigits 10 ds.reverse := by
  rw [Nat.ofDigits_eq_foldr, List.foldr_reverse]
  unfold Text.ofDigits
  congr 1
  funext n d
  rw [Nat.cast_id]
  omega

theorem natOf?_eq_some_iff : Text.natOf? cs = some n ↔
    ∃ ds : List Nat, ds ≠ [] ∧ (∀ d ∈ ds, d < 10) ∧ n = Nat.ofDigits 10 ds.reverse ∧ cs = ds.map Text.digitChar := by
  unfold Text.natOf?
  split
  · next h =>
    rw [List.isEmpty_iff] at h
    simp [h]
  · next h =>
    rw [List.isEmpty_iff] at h
    simp only [Option.map_eq_some_iff, mapM_digit?_eq_some_iff, ofDigits_eq]
    constructor
    · rintro ⟨ds, ⟨hds, rfl⟩, rfl⟩
      exact ⟨ds, fun hnil => h (by rw [hnil]; rfl), hds, rfl, rfl⟩
    · rintro ⟨ds, -, hds, rfl, rfl⟩
      exact ⟨ds, ⟨hds, rfl⟩, rfl⟩

theorem splitOnce_eq_some_iff :
    Text.splitOnce sep cs = some (before, after) ↔ cs = before ++ sep :: after ∧ sep ∉ before := by
  induction cs generalizing before with
  | nil => simp [Text.splitOnce]
  | cons c r ih =>
    unfold Text.splitOnce
    by_cases h : c = sep
    · rw [if_pos h]
      cases before with
      | nil => simp [h]
      | cons c' before =>
        refine ⟨nofun, fun ⟨heq, hnot⟩ => absurd ?_ hnot⟩
        rw [← h, (List.cons.inj heq).1]
        exact List.mem_cons_self
    · rw [if_neg h, Option.map_eq_some_iff]
      cases before with
      | nil => simp [h]
      | cons c' before =>
        simp only [Prod.exists, Prod.mk.injEq, List.cons.injEq, List.cons_append, List.mem_cons, not_or]
        constructor
        · rintro ⟨before', after', hsplit, ⟨rfl, rfl⟩, rfl⟩
          obtain ⟨rfl, hsep⟩ := ih.1 hsplit
          exact ⟨⟨rfl, rfl⟩, Ne.symm h, hsep⟩
        · rintro ⟨⟨rfl, hr⟩, -, hsep⟩
          exact ⟨before, after, ih.2 ⟨hr, hsep⟩, ⟨rfl, rfl⟩, rfl⟩

theorem not_mem_digits {c : Char} (hc : ∀ d < 10, Text.digitChar d ≠ c) (hds : ∀ d ∈ ds, d < 10) :
    c ∉ ds.map Text.digitChar := by
  rw [List.mem_map]
  rintro ⟨d, hd, heq⟩
  exact hc d (hds d hd) heq

/-- No number is written with a colon. -/
theorem not_mem_of_writes (h : Writes cs n) : ':' ∉ cs := by
  obtain ⟨ds, -, hds, -, hcs⟩ := h
  have hdigits : ':' ∉ ds.map Text.digitChar := not_mem_digits (by decide) hds
  rcases hcs with rfl | rfl
  · exact hdigits
  · simpa using hdigits

theorem number?_eq_some_iff : number? cs = some n ↔ Writes cs n ∧ n < UInt32.size := by
  unfold number? Writes
  rw [Option.filter_eq_some_iff, decide_eq_true_eq]
  refine and_congr_left fun _ => ?_
  split
  · next r =>
    -- after a plus sign, which is no digit itself
    rw [natOf?_eq_some_iff]
    refine exists_congr fun ds => and_congr_right fun _ => and_congr_right fun hds => and_congr_right fun _ => ?_
    have hplus : '+' ∉ ds.map Text.digitChar := not_mem_digits (by decide) hds
    constructor
    · rintro rfl
      exact .inr rfl
    · rintro (heq | heq)
      · exact absurd (heq ▸ List.mem_cons_self) hplus
      · exact (List.cons.inj heq).2
  · next hne =>
    rw [natOf?_eq_some_iff]
    refine exists_congr fun ds => and_congr_right fun _ => and_congr_right fun _ => and_congr_right fun _ => ?_
    exact ⟨.inl, fun h => h.resolve_right (hne _)⟩

theorem minute?_eq_some_iff : minute? bound = some m ↔ NamesMinute bound m := by
  unfold minute? NamesMinute
  simp only [Option.bind_eq_bind, Option.bind_eq_some_iff, number?_eq_some_iff, Prod.exists, splitOnce_eq_some_iff]
  constructor
  · rintro ⟨before, after, ⟨htrim, -⟩, hours, ⟨hh, -⟩, minutes, ⟨hm, -⟩, hif⟩
    split at hif
    · next hbounds =>
      exact ⟨before, after, hours, minutes, htrim, hh, hm, hbounds.1, hbounds.2, (Option.some.inj hif).symm⟩
    · cases hif
  · rintro ⟨before, after, hours, minutes, htrim, hh, hm, hhours, hminutes, rfl⟩
    have hsize : 60 ≤ UInt32.size := by decide
    exact ⟨before, after, ⟨htrim, not_mem_of_writes hh⟩, hours, ⟨hh, by omega⟩, minutes, ⟨hm, by omega⟩,
      if_pos ⟨hhours, hminutes⟩⟩

theorem NamesMinute.lt (h : NamesMinute bound m) : m < 1440 := by
  obtain ⟨-, -, hours, minutes, -, -, -, hhours, hminutes, rfl⟩ := h
  omega

/-! ## The week -/

/-- An instant lies in a minute of a day of the week, in UTC: a week is ten thousand and eighty minutes from the
    midnight before its Monday, and the first day of 1970 was the fourth of its week. -/
def OnClock (t : Int) (day minute : Nat) : Prop :=
  1 ≤ day ∧ day ≤ 7 ∧ minute < 1440 ∧ ∃ week : Int, t / 60 = 10080 * week + 1440 * (day - 4 : Int) + minute

theorem onClock_iff {t : Int} {day minute : Nat} :
    OnClock t day minute ↔ day = Calendar.weekday t ∧ minute = Calendar.minuteOfDay t := by
  unfold OnClock Calendar.weekday Calendar.minuteOfDay
  constructor
  · rintro ⟨h1, h7, hminute, week, ht⟩
    omega
  · rintro ⟨rfl, rfl⟩
    refine ⟨by omega, by omega, by omega, (t / 86400 + 3) / 7, by omega⟩

/-- From one minute of the day to another, both included, over midnight if it comes first. -/
def Between (start stop minute : Nat) : Prop := (minute + (1440 - start)) % 1440 ≤ (stop + (1440 - start)) % 1440

variable {minute start stop : Nat}

/-- A window that ends before it starts is the whole day but the gap between its end and its start. -/
theorem between_iff (hminute : minute < 1440) (hstart : start < 1440) (hstop : stop < 1440) :
    Between start stop minute ↔
      if start ≤ stop then start ≤ minute ∧ minute ≤ stop else ¬(stop < minute ∧ minute < start) := by
  unfold Between
  split <;> omega

theorem inWindow_iff (hminute : minute < 1440) (hstart : start < 1440) (hstop : stop < 1440) :
    inWindow minute start stop = true ↔ Between start stop minute := by
  rw [between_iff hminute hstart hstop]
  unfold inWindow
  split
  · rw [Bool.and_eq_true, decide_eq_true_eq, decide_eq_true_eq]
  · rw [Bool.or_eq_true, decide_eq_true_eq, decide_eq_true_eq]
    omega

/-! ## Windows -/

/-- A schedule that means something: both of its bounds are well-formed. -/
def WellFormed (z : FreezeSchedule) : Prop :=
  (∃ start, NamesMinute z.fromTime start) ∧ ∃ stop, NamesMinute z.toTime stop

/-- A schedule lists the day of an instant, and the minute lies between its bounds. -/
def Covers (z : FreezeSchedule) (t : Int) : Prop :=
  ∃ day minute start stop, OnClock t day minute ∧ (∃ w ∈ z.weekdays, w.toNat = day) ∧
    NamesMinute z.fromTime start ∧ NamesMinute z.toTime stop ∧ Between start stop minute

variable {z : FreezeSchedule} {schedules other : List FreezeSchedule} {t t' : Int}

theorem Covers.wellFormed (h : Covers z t) : WellFormed z := by
  obtain ⟨-, -, start, stop, -, -, hstart, hstop, -⟩ := h
  exact ⟨⟨start, hstart⟩, stop, hstop⟩

theorem holds_iff : z.holds t = true ↔ Covers z t := by
  have hwindow : ∀ start stop, NamesMinute z.fromTime start → NamesMinute z.toTime stop →
      (inWindow (Calendar.minuteOfDay t) start stop = true ↔ Between start stop (Calendar.minuteOfDay t)) :=
    fun start stop hstart hstop => inWindow_iff (Calendar.minuteOfDay_lt t) hstart.lt hstop.lt
  unfold FreezeSchedule.holds Covers
  rw [Bool.and_eq_true, List.any_eq_true]
  simp only [beq_iff_eq, onClock_iff, ← minute?_eq_some_iff] at hwindow ⊢
  constructor
  · rintro ⟨⟨w, hw, hday⟩, hbounds⟩
    split at hbounds
    · next start stop hstart hstop =>
      exact ⟨_, _, start, stop, ⟨rfl, rfl⟩, ⟨w, hw, hday⟩, hstart, hstop, (hwindow _ _ hstart hstop).1 hbounds⟩
    · cases hbounds
  · rintro ⟨day, minute, start, stop, ⟨rfl, rfl⟩, hday, hstart, hstop, hbetween⟩
    refine ⟨hday, ?_⟩
    simp only [hstart, hstop]
    exact (hwindow _ _ hstart hstop).2 hbetween

theorem window_eq_isOpen_iff : window schedules t = .isOpen ↔ ∀ z ∈ schedules, ¬Covers z t := by
  unfold window
  simp only [← holds_iff, ← List.find?_eq_none]
  cases schedules.find? (·.holds t) <;> simp

theorem isFrozen_window : (window schedules t).isFrozen = true ↔ ∃ z ∈ schedules, Covers z t := by
  have hopen : (window schedules t).isFrozen = true ↔ ¬window schedules t = .isOpen := by
    unfold window
    cases schedules.find? (·.holds t) <;> simp [FreezeStatus.isFrozen]
  rw [hopen, window_eq_isOpen_iff]
  push Not
  rfl

theorem window_eq_frozen_iff {text : String} : window schedules t = .frozen text ↔
    ∃ before z after, schedules = before ++ z :: after ∧ (∀ y ∈ before, ¬Covers y t) ∧ Covers z t ∧
      text = z.reason := by
  have hfind : window schedules t = .frozen text ↔ ∃ z, schedules.find? (·.holds t) = some z ∧ text = z.reason := by
    unfold window
    cases schedules.find? (·.holds t) <;> simp [eq_comm]
  rw [hfind]
  simp only [List.find?_eq_some_iff_append, ← holds_iff]
  constructor
  · rintro ⟨z, ⟨hz, before, after, rfl, hbefore⟩, rfl⟩
    exact ⟨before, z, after, rfl, fun y hy => by simpa using hbefore y hy, hz, rfl⟩
  · rintro ⟨before, z, after, rfl, hbefore, hz, rfl⟩
    exact ⟨z, ⟨hz, before, after, rfl, fun y hy => by simpa using hbefore y hy⟩, rfl⟩

/-- Instants at the same minute of some week are as one to every schedule. -/
theorem window_eq_of_weeks (week : Int) (h : t' / 60 = t / 60 + 10080 * week) (schedules : List FreezeSchedule) :
    window schedules t = window schedules t' := by
  have hday : Calendar.weekday t = Calendar.weekday t' := by
    unfold Calendar.weekday
    omega
  have hminute : Calendar.minuteOfDay t = Calendar.minuteOfDay t' := by
    unfold Calendar.minuteOfDay
    omega
  unfold window FreezeSchedule.holds
  rw [hday, hminute]

/-- Only the well-formed schedules matter to whether a pool is frozen, and not where they stand. -/
theorem isFrozen_congr (h : ∀ z, WellFormed z → (z ∈ schedules ↔ z ∈ other)) (t : Int) :
    (window schedules t).isFrozen = (window other t).isFrozen := by
  rw [Bool.eq_iff_iff, isFrozen_window, isFrozen_window]
  exact exists_congr fun z => and_congr_left fun hz => h z hz.wellFormed

/-- What schedules say of an instant, by its minute in the UTC week. -/
structure FollowTheWeek (schedules : List FreezeSchedule) : Prop where
  frozen : ∀ t, (window schedules t).isFrozen = true ↔ ∃ z ∈ schedules, Covers z t
  /-- The reason is that of the first schedule that covers the instant. -/
  reason : ∀ t text, window schedules t = .frozen text ↔ ∃ before z after, schedules = before ++ z :: after ∧
    (∀ y ∈ before, ¬Covers y t) ∧ Covers z t ∧
      text = s!"Freeze window: {z.fromTime} - {z.toTime} on {describeDays z.weekdays}"
  isOpen : ∀ t, window schedules t = .isOpen ↔ ∀ z ∈ schedules, ¬Covers z t
  weekly : ∀ t t', 604800 ∣ t' - t → window schedules t = window schedules t'
  sameMinute : ∀ t t', t / 60 = t' / 60 → window schedules t = window schedules t'
  permuted : ∀ other, schedules.Perm other → ∀ t, (window schedules t).isFrozen = (window other t).isFrozen
  /-- Schedules without two well-formed bounds may be left out. -/
  pruned : ∀ other, other.Sublist schedules → (∀ z ∈ schedules, WellFormed z → z ∈ other) →
    ∀ t, (window schedules t).isFrozen = (window other t).isFrozen

theorem windows_follow_the_week (schedules : List FreezeSchedule) : FollowTheWeek schedules where
  frozen t := isFrozen_window
  reason t text := window_eq_frozen_iff
  isOpen t := window_eq_isOpen_iff
  weekly t t' h := by
    obtain ⟨week, hweek⟩ := h
    exact window_eq_of_weeks week (by omega) schedules
  sameMinute t t' h := window_eq_of_weeks 0 (by omega) schedules
  permuted other h := isFrozen_congr fun z _ => h.mem_iff
  pruned other hsub hkept := isFrozen_congr fun z hz => ⟨fun hmem => hkept z hmem hz, fun hmem => hsub.subset hmem⟩

/-- A window over midnight, on the eve of 1970, a Wednesday: the last second of that day lies in it, and the first
    one of the next day does not, since only the day of the instant is looked for. -/
example : (window [⟨[3], "23:59", "00:00"⟩] (-1)).isFrozen = true ∧ window [⟨[3], "23:59", "00:00"⟩] 0 = .isOpen := by
  decide +kernel

/-! ## One-time unfreezes -/

/-- What an unfreeze is for: what is frozen is unfrozen before the unfreeze's time, and nothing else changes. -/
def Overrides (schedules : List FreezeSchedule) (limit : UInt64) (t : Int) : Prop :=
  windowWithUnfreeze schedules (some limit) t =
    if (window schedules t).isFrozen = true ∧ t < limit.toNat then .unfrozen else window schedules t

variable {u u' : UInt64}

/-- A stored time from `2 ^ 63` on is taken for one that is as far before 1970 as it is short of `2 ^ 64`. -/
theorem signed_eq (u : UInt64) : signed u = if u.toNat < 2 ^ 63 then (u.toNat : Int) else u.toNat - 2 ^ 64 := by
  rw [signed, Int64.toInt, UInt64.toBitVec_toInt64, BitVec.toInt_eq_toNat_cond, UInt64.toNat_toBitVec]
  split <;> split <;> omega

theorem windowWithUnfreeze_some : windowWithUnfreeze schedules (some u) t =
    if (window schedules t).isFrozen = true ∧ t < signed u then .unfrozen else window schedules t := rfl

theorem isFrozen_windowWithUnfreeze : (windowWithUnfreeze schedules (some u) t).isFrozen = true ↔
    (window schedules t).isFrozen = true ∧ signed u ≤ t := by
  rw [windowWithUnfreeze_some]
  split
  · next h =>
    simp only [FreezeStatus.isFrozen, Bool.false_eq_true, false_iff]
    omega
  · next h =>
    refine ⟨fun hf => ⟨hf, ?_⟩, fun hf => hf.1⟩
    by_contra hlt
    exact h ⟨hf, by omega⟩

theorem overrides_iff : Overrides schedules u t ↔
    u.toNat < 2 ^ 63 ∨ (window schedules t).isFrozen = false ∨ (u.toNat : Int) ≤ t ∨ t < u.toNat - 2 ^ 64 := by
  unfold Overrides
  rw [windowWithUnfreeze_some]
  cases hf : (window schedules t).isFrozen with
  | false => simp
  | true =>
    have hne : FreezeStatus.unfrozen ≠ window schedules t := fun h => by rw [← h] at hf; cases hf
    have hsame : ((if true = true ∧ t < signed u then .unfrozen else window schedules t) =
        if true = true ∧ t < u.toNat then .unfrozen else window schedules t) ↔ (t < signed u ↔ t < u.toNat) := by
      by_cases h : t < signed u <;> by_cases h' : t < u.toNat <;> simp [h, h', hne, hne.symm]
    rw [hsame, signed_eq]
    split <;> simp <;> omega

/-- Unfreezes override every window exactly as far as their times are read as what they are: before `2 ^ 63`, or where
    the wrong reading makes no difference. From 1970 on a later one is never in force, so the latest unfreezes leave
    a pool frozen that earlier ones open; on either side of `2 ^ 63` a later one never freezes. -/
theorem unfreezes_override_windows (schedules : List FreezeSchedule) (t : Int) (u : UInt64) :
    (Overrides schedules u t ↔
      u.toNat < 2 ^ 63 ∨ (window schedules t).isFrozen = false ∨ (u.toNat : Int) ≤ t ∨ t < u.toNat - 2 ^ 64) ∧
    (2 ^ 63 ≤ u.toNat → 0 ≤ t → windowWithUnfreeze schedules (some u) t = window schedules t) ∧
    ∀ u' : UInt64, u ≤ u' → (u'.toNat < 2 ^ 63 ∨ 2 ^ 63 ≤ u.toNat) →
      (windowWithUnfreeze schedules (some u) t).isFrozen = false →
        (windowWithUnfreeze schedules (some u') t).isFrozen = false := by
  have hu := u.toNat_lt
  refine ⟨overrides_iff, fun hlate ht => ?_, fun u' hle hside => ?_⟩
  · rw [windowWithUnfreeze_some, if_neg]
    rintro ⟨-, hlt⟩
    rw [signed_eq, if_neg (by omega)] at hlt
    omega
  · have hle' : u.toNat ≤ u'.toNat := UInt64.le_iff_toNat_le.1 hle
    have hsigned : signed u ≤ signed u' := by
      rw [signed_eq, signed_eq]
      split <;> split <;> omega
    simp only [← Bool.not_eq_true, isFrozen_windowWithUnfreeze, not_and, Int.not_le]
    exact fun h hf => lt_of_lt_of_le (h hf) hsigned

/-- A schedule that freezes a pool for ever. -/
def everyMinute : FreezeSchedule := { weekdays := [1, 2, 3, 4, 5, 6, 7], fromTime := "00:00", toTime := "23:59" }

theorem unfreezes_override_windows_one_second :
    Overrides [everyMinute] 1760000001 1760000000 ∧
    windowWithUnfreeze [everyMinute] (some 1760000001) 1760000000 = .unfrozen ∧
    (windowWithUnfreeze [everyMinute] (some 9223372036854775807) 1760000000).isFrozen = false ∧
    windowWithUnfreeze [everyMinute] (some 9223372036854775808) 1760000000 = window [everyMinute] 1760000000 := by
  have hopen : windowWithUnfreeze [everyMinute] (some 1760000001) 1760000000 = .unfrozen := by decide +kernel
  have hearly := unfreezes_override_windows [everyMinute] 1760000000 1760000001
  have hlate := unfreezes_override_windows [everyMinute] 1760000000 9223372036854775808
  exact ⟨hearly.1.2 (.inl (by decide)), hopen,
    hearly.2.2 9223372036854775807 (by decide) (.inl (by decide)) (by rw [hopen]; rfl),
    hlate.2.1 (by decide) (by decide)⟩

/-- An unfreeze until the last stored time does nothing, although the one until `2 ^ 63 - 1` opens the pool. -/
theorem last_unfreeze_leaves_frozen :
    ¬Overrides [everyMinute] 18446744073709551615 1760000000 ∧
      (windowWithUnfreeze [everyMinute] (some 9223372036854775807) 1760000000).isFrozen = false ∧
      (windowWithUnfreeze [everyMinute] (some 18446744073709551615) 1760000000).isFrozen = true := by
  refine ⟨fun h => ?_, by decide +kernel, by decide +kernel⟩
  unfold Overrides at h
  revert h
  decide +kernel

end TaskFleet.Freeze
