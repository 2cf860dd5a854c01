import Emma.BackupRotation
import Emma.Library.FixedWidth
import Emma.Library.Retention

/-!
# One backup after the other

The stamp of an archive is of one width, so that the names of one project go by
the clock. Over any nights the destination then is a log of archives: a run may
die before it writes one, leave one that it has not verified, or rotate, as far
as it gets. `BACKUP_KEEP` can be another one every night.
-/

set_option autoImplicit false

namespace Emma.Nights
open Ranking FixedWidth Retention Emma.BackupRotation

/-- The local time as `date` breaks it down. -/
structure Moment where
  year : ℕ
  month : ℕ
  day : ℕ
  hour : ℕ
  minute : ℕ
  second : ℕ
  yearFits : 1000 ≤ year ∧ year < 10000
  monthFits : month ≤ 12
  dayFits : day ≤ 31
  hourFits : hour < 24
  minuteFits : minute < 60
  secondFits : second ≤ 60

namespace Moment

def fields (m : Moment) : List ℕ := [m.year,m.month,m.day,m.hour,m.minute,m.second]

def Before (a b : Moment) : Prop := a.fields < b.fields

instance (a b : Moment) : Decidable (a.Before b) := inferInstanceAs (Decidable (_ < _))

/-- `date +%Y%m%d-%H%M%S`. -/
def stamp (m : Moment) : Name :=
  padded 4 m.year ++ (padded 2 m.month ++ (padded 2 m.day ++ '-' ::
    (padded 2 m.hour ++ (padded 2 m.minute ++ padded 2 m.second))))

theorem stamp_lt_iff (a b : Moment) : a.stamp < b.stamp ↔ a.Before b := by
  have hyear := And.intro a.yearFits.2 b.yearFits.2
  have hmonth := And.intro a.monthFits b.monthFits
  have hday := And.intro a.dayFits b.dayFits
  have hhour := And.intro a.hourFits b.hourFits
  have hminute := And.intro a.minuteFits b.minuteFits
  have hsecond := And.intro a.secondFits b.secondFits
  unfold stamp Before fields
  rw [append_lt_append_iff _ _ _ _ (by simp), append_lt_append_iff _ _ _ _ (by simp),
    append_lt_append_iff _ _ _ _ (by simp), List.cons_lt_cons_iff,
    append_lt_append_iff _ _ _ _ (by simp), append_lt_append_iff _ _ _ _ (by simp)]
  iterate 6 rw [padded_lt_iff _ _ _ (by omega) (by omega)]
  iterate 5 rw [padded_inj _ _ _ (by omega) (by omega)]
  simp [List.cons_lt_cons_iff]

theorem stamp_plain (m : Moment) (c : Char) (h : c ∈ m.stamp) : c.isDigit = true ∨ c = '-' := by
  simp only [stamp, List.mem_append, List.mem_cons] at h
  rcases h with h | h | h | rfl | h | h | h
  · exact .inl (padded_digit _ _ c h)
  · exact .inl (padded_digit _ _ c h)
  · exact .inl (padded_digit _ _ c h)
  · exact .inr rfl
  · exact .inl (padded_digit _ _ c h)
  · exact .inl (padded_digit _ _ c h)
  · exact .inl (padded_digit _ _ c h)

theorem not_before_self (m : Moment) : ¬m.Before m := List.lt_irrefl _

end Moment

def archive (project : Name) (m : Moment) : Name := archiveName project m.stamp

inductive Ending where
  | early
  | unverified
  | rotating (cut : Option ℕ)

structure Night where
  moment : Moment
  keep : ℕ
  ending : Ending

/-- The loop of the rotation, which a failed `rm` ends. -/
def removeAll : Disk → List Name → Disk
  | d, [] => d
  | d, line::rest =>
    match d.rm line with
    | none => d
    | some d => removeAll d rest

def stale (tools : Tools) (project : Name) (keep : ℕ) (d : Disk) : List Name :=
  (sortDown tools.collate (lines tools project d)).drop keep

def night (tools : Tools) (project : Name) (d : Disk) (n : Night) : Disk :=
  if n.keep < 1 then d
  else
    match n.ending with
    | .early => d
    | .unverified => (d.writeArchive (archive project n.moment)).getD d
    | .rotating cut =>
      match d.writeArchive (archive project n.moment) with
      | none => d
      | some d =>
        let stale := stale tools project n.keep d
        removeAll d (cut.elim stale stale.take)

theorem night_of_backup (tools : Tools) (project : Name) (m : Moment) (keep : ℕ) (d d' : Disk)
    (h : backup tools project m.stamp keep true d = some d') :
    night tools project d ⟨m,keep,.rotating none⟩ = d' := by
  have hloop : ∀ (d : Disk) (lines : List Name),
      lines.foldlM (fun d line => d.rm line) d = some d' → removeAll d lines = d' := by
    intro d lines hfold
    induction lines generalizing d with
    | nil => exact Option.some.inj hfold
    | cons line rest ih =>
      obtain ⟨next,hrm,hrest⟩ := Option.bind_eq_some_iff.mp hfold
      rw [removeAll, show d.rm line = some next from hrm]
      exact ih next hrest
  unfold backup at h
  unfold night
  split at h
  · cases h
  · rename_i hkeep
    obtain ⟨w,hw,hrest⟩ := Option.bind_eq_some_iff.mp h
    rw [if_neg hkeep]
    change (match d.writeArchive (archiveName project m.stamp) with
      | none => d
      | some d => removeAll d (stale tools project keep d)) = d'
    rw [hw]
    rw [if_pos rfl, rotate] at hrest
    split at hrest
    · exact hloop w _ hrest
    · rename_i hfew
      have hnone : stale tools project keep w = [] :=
        List.drop_eq_nil_of_le (Nat.le_of_not_lt hfew)
      change removeAll w (stale tools project keep w) = d'
      rw [hnone]
      exact Option.some.inj hrest

def Night.round (n : Night) : Round Moment :=
  if n.keep < 1 then .idle
  else
    match n.ending with
    | .early => .idle
    | .unverified => .adds n.moment
    | .rotating cut => .trims n.moment n.keep cut

/-- Characters that stand for themselves in a pattern and in a listing. -/
def Plain (project : Name) : Prop :=
  ∀ c ∈ project, c.isAlphanum = true ∨ c = '-' ∨ c = '_' ∨ c = '.'

instance (project : Name) : Decidable (Plain project) := List.decidableBAll _ project

/-- The destination has these archives and nothing else, the newest first. -/
structure Holds (project : Name) (d : Disk) (log : List Moment) : Prop where
  regular : ∀ name entry, d.entries.lookup name = some entry → entry.kind = .regular
  names : ∀ name, name ∈ d.entries ↔ ∃ m ∈ log, archive project m = name
  order : log.Pairwise fun a b => b.Before a

section
variable {project : Name} {d : Disk} {log : List Moment}

theorem archive_lt_iff (a b : Moment) : archive project a < archive project b ↔ a.Before b := by
  have hlength : a.stamp.length = b.stamp.length := by simp [Moment.stamp]
  have hself : ¬(".tar.gz".toList : Name) < ".tar.gz".toList := List.lt_irrefl _
  rw [archive, archive, archiveName, archiveName, List.append_assoc, List.append_assoc,
    append_lt_append_iff _ _ _ _ rfl, List.cons_append, List.cons_append, List.cons_lt_cons_iff,
    append_lt_append_iff _ _ _ _ hlength, Moment.stamp_lt_iff]
  simp only [hself, and_false, or_false, Char.lt_irrefl, false_or, true_and, List.lt_irrefl]

theorem archive_ne {a b : Moment} (h : a.Before b) : archive project a ≠ archive project b :=
  fun hsame => List.lt_irrefl _ (hsame ▸ (archive_lt_iff a b).mpr h)

theorem collate_archive {a b : Moment} (h : a.Before b) :
    plainTools.collate (archive project a) (archive project b) = true :=
  decide_eq_true (le_of_lt ((archive_lt_iff a b).mpr h))

theorem fnmatch_archive (hplain : Plain project) (m : Moment) :
    plainTools.fnmatch (pattern project) (archive project m) = true := by
  have hstar : ∀ c ∈ project, decide (c ≠ '*') = true := by
    intro c hc
    apply decide_eq_true
    rintro rfl
    rcases hplain '*' hc with h | h | h | h <;> exact absurd h (by decide)
  have hfront : (pattern project).takeWhile (· ≠ '*') = project ++ ['-'] := by
    rw [pattern, List.takeWhile_append_of_pos hstar]
    rfl
  have hback : ((pattern project).dropWhile (· ≠ '*')).tail = ".tar.gz".toList := by
    rw [pattern, List.dropWhile_append_of_pos hstar]
    rfl
  have hname : archive project m = (project ++ ['-']) ++ (m.stamp ++ ".tar.gz".toList) := by
    simp [archive, archiveName]
  change (((pattern project).takeWhile (· ≠ '*')).isPrefixOf (archive project m) &&
    ((pattern project).dropWhile (· ≠ '*')).tail.isSuffixOf
      ((archive project m).drop ((pattern project).takeWhile (· ≠ '*')).length)) = true
  rw [hfront, hback, hname, List.drop_left, Bool.and_eq_true, List.isPrefixOf_iff_prefix,
    List.isSuffixOf_iff_suffix]
  exact ⟨List.prefix_append _ _,List.suffix_append _ _⟩

theorem one_line (hplain : Plain project) (m : Moment) : '\n' ∉ archive project m := by
  intro h
  rw [archive, archiveName, List.append_assoc, List.mem_append] at h
  rcases h with h | h
  · rcases hplain _ h with h | h | h | h <;> exact absurd h (by decide)
  · rw [List.cons_append, List.mem_cons, List.mem_append] at h
    rcases h with h | h | h
    · exact absurd h (by decide)
    · exact absurd (m.stamp_plain _ h) (by decide)
    · exact absurd h (by decide)

theorem Holds.kind (h : Holds project d log) (name : Name) (hname : name ∈ d.entries) :
    (d.entries.lookup name).any (fun entry => entry.kind = .regular) = true := by
  obtain ⟨entry,hentry⟩ := Option.isSome_iff_exists.mp (AList.lookup_isSome.mpr hname)
  rw [hentry]
  exact decide_eq_true (h.regular name entry hentry)

theorem Holds.no_directory (h : Holds project d log) (name : Name) :
    (d.entries.lookup name).any (fun entry => entry.kind = .directory) = false := by
  cases hentry : d.entries.lookup name with
  | none => rfl
  | some entry =>
    apply decide_eq_false
    rw [h.regular name entry hentry]
    exact Kind.noConfusion

/-- Every archive is a line of the listing, and there is no other. -/
theorem Holds.lines_eq (hplain : Plain project) (h : Holds project d log) :
    lines plainTools project d = d.entries.keys := by
  have hall : ∀ name ∈ d.entries.keys,
      ((d.entries.lookup name).any (fun entry => entry.kind = .regular) &&
        plainTools.fnmatch (pattern project) name) = true := by
    intro name hname
    obtain ⟨m,-,rfl⟩ := (h.names name).mp (AList.mem_keys.mpr hname)
    rw [h.kind _ (AList.mem_keys.mpr hname), fnmatch_archive hplain]
    rfl
  have hone : ∀ name ∈ d.entries.keys, name.splitOn '\n' = [name] := by
    intro name hname
    obtain ⟨m,-,rfl⟩ := (h.names name).mp (AList.mem_keys.mpr hname)
    exact List.splitOn_eq_singleton (one_line hplain m)
  rw [lines, List.filter_eq_self.mpr hall, List.flatMap_congr hone]
  exact List.flatMap_singleton' _

theorem Holds.nodup (h : Holds project d log) : (log.map (archive project)).Nodup := by
  rw [List.Nodup, List.pairwise_map]
  exact h.order.imp fun hbefore => (archive_ne hbefore).symm

theorem Holds.sorted (hplain : Plain project) (h : Holds project d log) :
    sortDown plainTools.collate (lines plainTools project d) = log.map (archive project) := by
  have hperm : d.entries.keys.Perm (log.map (archive project)) := by
    rw [List.perm_ext_iff_of_nodup d.entries.keys_nodup h.nodup]
    intro name
    rw [← AList.mem_keys, h.names name, List.mem_map]
  have htotal : Std.Total fun a b : Name => plainTools.collate b a = true :=
    ⟨fun a b => plainTools.collate_total b a⟩
  have htrans : IsTrans Name fun a b => plainTools.collate b a = true :=
    ⟨fun a b c hab hbc => plainTools.collate_trans c b a hbc hab⟩
  have hdown : (log.map (archive project)).Pairwise fun a b => plainTools.collate b a = true :=
    List.pairwise_map.mpr (h.order.imp collate_archive)
  rw [h.lines_eq hplain]
  apply ((perm_sortDown plainTools.collate _).trans hperm).eq_of_pairwise _
    (List.pairwise_insertionSort _ _) hdown
  intro a b _ _ hab hba
  exact plainTools.collate_antisymm a b hba hab

theorem Holds.rm {kept rest : List Moment} {m : Moment}
    (h : Holds project d (kept ++ m::rest)) :
    ∃ d', d.rm (archive project m) = some d' ∧ Holds project d' (kept++rest) := by
  have hlong : 2 < (archive project m).length := by
    simp [archive, archiveName]
    omega
  have hname : ¬(archive project m = [] ∨ archive project m = ['.'] ∨
      archive project m = ['.','.']) := by
    rintro (hshort | hshort | hshort) <;> simp [hshort] at hlong
  refine ⟨d.erase (archive project m),?_,?_,?_,?_⟩
  · rw [Disk.rm, if_neg hname, h.no_directory]
    rfl
  · intro name entry hentry
    by_cases hsame : name = archive project m
    · rw [hsame, Disk.erase, AList.lookup_erase] at hentry
      cases hentry
    · rw [Disk.erase, AList.lookup_erase_ne hsame] at hentry
      exact h.regular name entry hentry
  · intro name
    have hother : ∀ b ∈ kept++rest, archive project b ≠ archive project m := by
      have honce := h.nodup
      rw [List.map_append, List.map_cons, List.nodup_middle, List.nodup_cons,
        ← List.map_append] at honce
      intro b hb hsame
      exact honce.1 (hsame ▸ List.mem_map_of_mem hb)
    rw [Disk.erase, AList.mem_erase, h.names name]
    constructor
    · rintro ⟨hne,b,hb,rfl⟩
      rw [List.mem_append, List.mem_cons] at hb
      rcases hb with hb | rfl | hb
      · exact ⟨b,List.mem_append_left _ hb,rfl⟩
      · exact absurd rfl hne
      · exact ⟨b,List.mem_append_right _ hb,rfl⟩
    · rintro ⟨b,hb,rfl⟩
      refine ⟨hother b hb,b,?_,rfl⟩
      exact ((List.Sublist.refl kept).append (List.sublist_cons_self m rest)).subset hb
  · exact h.order.sublist ((List.Sublist.refl kept).append (List.sublist_cons_self m rest))

theorem Holds.removeAll {kept gone rest : List Moment}
    (h : Holds project d (kept ++ (gone++rest))) :
    Holds project (removeAll d (gone.map (archive project))) (kept++rest) := by
  induction gone generalizing d with
  | nil => exact h
  | cons m gone ih =>
    obtain ⟨next,hrm,hnext⟩ := h.rm
    rw [List.map_cons, Nights.removeAll, hrm]
    exact ih hnext

theorem Holds.put (h : Holds project d log) (m : Moment) (hnew : ∀ old ∈ log, old.Before m) :
    ∃ d', d.writeArchive (archive project m) = some d' ∧ Holds project d' (m::log) := by
  have habsent : archive project m ∉ d.entries := by
    intro hthere
    obtain ⟨old,hold,hsame⟩ := (h.names _).mp hthere
    exact archive_ne (hnew old hold) hsame
  refine ⟨d.withArchive (archive project m),?_,?_,?_,?_⟩
  · rw [Disk.writeArchive, h.no_directory]
    rfl
  · intro name entry hentry
    by_cases hsame : name = archive project m
    · rw [hsame, Disk.withArchive, Disk.put, AList.lookup_insert,
        AList.lookup_eq_none.mpr habsent] at hentry
      obtain rfl := Option.some.inj hentry
      rfl
    · rw [Disk.withArchive, Disk.put, AList.lookup_insert_ne hsame] at hentry
      exact h.regular name entry hentry
  · intro name
    rw [Disk.withArchive, Disk.put, AList.mem_insert, h.names name]
    simp only [List.mem_cons, exists_eq_or_imp]
    exact or_congr_left eq_comm
  · exact List.pairwise_cons.mpr ⟨hnew,h.order⟩

theorem Holds.rotated (hplain : Plain project) (h : Holds project d log) (keep : ℕ)
    (cut : Option ℕ) :
    Holds project (Nights.removeAll d
      (cut.elim (stale plainTools project keep d) (stale plainTools project keep d).take))
      (trim log keep cut) := by
  have hstale : stale plainTools project keep d = (log.drop keep).map (archive project) := by
    rw [stale, h.sorted hplain, List.map_drop]
  rw [hstale, trim]
  cases cut with
  | none =>
    apply Holds.removeAll
    rwa [Option.elim_none, List.append_nil, List.take_append_drop]
  | some n =>
    change Holds project (Nights.removeAll d (((log.drop keep).map (archive project)).take n)) _
    rw [← List.map_take]
    apply Holds.removeAll
    rwa [Option.elim_some, List.take_append_drop, List.take_append_drop]

/-- A night does to the destination what its round does to the log. -/
theorem night_holds (hplain : Plain project) (h : Holds project d log) (n : Night)
    (hnew : ∀ old ∈ log, old.Before n.moment) :
    Holds project (night plainTools project d n) (step log n.round) := by
  obtain ⟨w,hw,hwritten⟩ := h.put n.moment hnew
  unfold night Night.round
  by_cases hkeep : n.keep < 1
  · rw [if_pos hkeep, if_pos hkeep]
    exact h
  · rw [if_neg hkeep, if_neg hkeep, hw]
    cases n.ending with
    | early => exact h
    | unverified => exact hwritten
    | rotating cut => exact hwritten.rotated hplain n.keep cut

theorem round_entry (n : Night) (m : Moment) (h : n.round.entry = some m) : m = n.moment := by
  unfold Night.round at h
  split at h
  · cases h
  · split at h
    · cases h
    · exact (Option.some.inj h).symm
    · exact (Option.some.inj h).symm

theorem nights_hold (hplain : Plain project) (nights : List Night) (h : Holds project d log)
    (hold : ∀ old ∈ log, ∀ n ∈ nights, old.Before n.moment)
    (hclock : nights.Pairwise fun a b => a.moment.Before b.moment) :
    Holds project (nights.foldl (night plainTools project) d)
      ((nights.map Night.round).foldl step log) := by
  induction nights generalizing d log with
  | nil => exact h
  | cons n rest ih =>
    obtain ⟨hfirst,hrest⟩ := List.pairwise_cons.mp hclock
    have hstep := night_holds hplain h n fun old hin => hold old hin n List.mem_cons_self
    rw [List.map_cons, List.foldl_cons, List.foldl_cons]
    apply ih hstep _ hrest
    intro old hin later hlater
    rcases List.mem_append.mp ((step_sublist log n.round).subset hin) with hentry | hin
    · obtain rfl := round_entry n old (Option.mem_toList.mp hentry)
      exact hfirst later hlater
    · exact hold old hin later (List.mem_cons_of_mem n hlater)

end

def Night.Leaves (n : Night) : Prop := 1 ≤ n.keep ∧ n.ending ≠ .early

theorem entry_of_leaves (n : Night) (h : n.Leaves) : n.round.entry = some n.moment := by
  rw [Night.round, if_neg (Nat.not_lt.mpr h.1)]
  cases hending : n.ending with
  | early => exact absurd hending h.2
  | unverified => rfl
  | rotating cut => rfl

theorem leaves_of_entry (n : Night) (m : Moment) (h : n.round.entry = some m) : n.Leaves := by
  unfold Night.round at h
  split at h
  · cases h
  · rename_i hkeep
    refine ⟨Nat.not_lt.mp hkeep,?_⟩
    intro hearly
    rw [hearly] at h
    cases h

theorem step_first (log : List Moment) (n : Night) (h : n.Leaves) :
    ∃ back, step log n.round = n.moment::back := by
  rw [Night.round, if_neg (Nat.not_lt.mpr h.1)]
  cases hending : n.ending with
  | early => exact absurd hending h.2
  | unverified => exact ⟨log,rfl⟩
  | rotating cut => exact trim_stays [] log n.moment n.keep cut h.1

theorem moments_sublist (nights : List Night) :
    (entries (nights.map Night.round)).Sublist (nights.map Night.moment) := by
  induction nights with
  | nil => exact List.Sublist.refl _
  | cons n rest ih =>
    rw [List.map_cons, List.map_cons, entries_cons]
    cases hentry : n.round.entry with
    | none => exact ih.trans (List.sublist_cons_self _ _)
    | some m =>
      obtain rfl := round_entry n m hentry
      exact ih.cons_cons n.moment

theorem entries_once (nights : List Night)
    (hclock : nights.Pairwise fun a b => a.moment.Before b.moment) :
    (entries (nights.map Night.round)).reverse.Nodup := by
  rw [List.nodup_reverse]
  apply List.Nodup.sublist (moments_sublist nights)
  rw [List.Nodup, List.pairwise_map]
  apply hclock.imp
  intro a b hbefore hsame
  rw [hsame] at hbefore
  exact b.moment.not_before_self hbefore

theorem archive_inj {project : Name} {a b : Moment}
    (h : archive project a = archive project b) : a = b := by
  have hab : ¬a.Before b := fun hbefore => archive_ne hbefore h
  have hba : ¬b.Before a := fun hbefore => archive_ne hbefore h.symm
  have hfields : a.fields = b.fields := le_antisymm (not_lt.mp hba) (not_lt.mp hab)
  cases a
  cases b
  simpa [Moment.fields] using hfields

theorem noBackup_holds (project : Name) : Holds project noBackup [] where
  regular := by
    intro name entry hentry
    rw [noBackup, AList.lookup_empty] at hentry
    cases hentry
  names := by
    intro name
    simp [noBackup]
  order := List.Pairwise.nil

/-- An archive is there when it is in what the later rounds leave of the log. -/
theorem there_iff (project : Name) (hplain : Plain project) (past : List Night) (n : Night)
    (later : List Night) (hleaves : n.Leaves)
    (hclock : (past ++ n::later).Pairwise fun a b => a.moment.Before b.moment) :
    ∃ back, (n.moment::back).Sublist (n.moment::(entries (past.map Night.round)).reverse) ∧
      (archive project n.moment ∈
          ((past ++ n::later).foldl (night plainTools project) noBackup).entries ↔
        n.moment ∈ (later.map Night.round).foldl step ([] ++ n.moment::back)) := by
  have hholds := nights_hold hplain (past ++ n::later) (noBackup_holds project) (by simp) hclock
  obtain ⟨back,hback⟩ := step_first ((past.map Night.round).foldl step []) n hleaves
  refine ⟨back,?_,?_⟩
  · have hpast := (step_sublist _ n.round).trans
      ((List.Sublist.refl _).append (run_sublist [] (past.map Night.round)))
    rw [hback, entry_of_leaves n hleaves, List.append_nil] at hpast
    exact hpast
  · rw [hholds.names, List.map_append, List.map_cons, List.foldl_append, List.foldl_cons, hback,
      List.nil_append]
    constructor
    · rintro ⟨m,hm,hsame⟩
      exact archive_inj hsame ▸ hm
    · exact fun hm => ⟨n.moment,hm,rfl⟩

/-- The nights whose archive is not verified delete nothing, so that the last
verified one is always there. -/
theorem verified_stays (project : Name) (hplain : Plain project) (past : List Night) (n : Night)
    (later : List Night) (hleaves : n.Leaves)
    (hclock : (past ++ n::later).Pairwise fun a b => a.moment.Before b.moment)
    (hlater : ∀ m ∈ later, ∀ cut, m.ending ≠ .rotating cut) :
    archive project n.moment ∈
      ((past ++ n::later).foldl (night plainTools project) noBackup).entries := by
  obtain ⟨back,-,hthere⟩ := there_iff project hplain past n later hleaves hclock
  rw [hthere]
  apply stays [] back n.moment 0 _ le_rfl
  intro hdisplaced
  obtain ⟨entry,keep,cut,hmem⟩ := displaced_trims 0 _ hdisplaced
  obtain ⟨m,hm,hround⟩ := List.mem_map.mp hmem
  unfold Night.round at hround
  split at hround
  · cases hround
  · split at hround
    · cases hround
    · cases hround
    · rename_i hending
      exact hlater m hm _ hending

/-- Over all nights of a clock that runs forward, an archive is there as long as no
verified run has counted `BACKUP_KEEP` newer ones with it, and where no rotation was
interrupted after it was made, only so long. There is nothing else. -/
theorem archives_stay (project : Name) (hplain : Plain project) (past : List Night) (n : Night)
    (later : List Night) (hleaves : n.Leaves)
    (hclock : (past ++ n::later).Pairwise fun a b => a.moment.Before b.moment) :
    let d := (past ++ n::later).foldl (night plainTools project) noBackup
    (¬Displaced 0 (later.map Night.round) → archive project n.moment ∈ d.entries) ∧
    ((∀ m ∈ later, m.round.Uncut) →
      (archive project n.moment ∈ d.entries ↔ ¬Displaced 0 (later.map Night.round))) ∧
    ∀ name ∈ d.entries, ∃ m ∈ past ++ n::later, m.Leaves ∧ archive project m.moment = name := by
  intro d
  obtain ⟨back,hback,hthere⟩ := there_iff project hplain past n later hleaves hclock
  refine ⟨?_,?_,?_⟩
  · rw [hthere]
    exact stays [] back n.moment 0 _ le_rfl
  · intro huncut
    rw [hthere]
    apply mem_run_iff [] back n.moment
    · intro round hround
      obtain ⟨m,hm,rfl⟩ := List.mem_map.mp hround
      exact huncut m hm
    · have honce := entries_once (past ++ n::later) hclock
      rw [List.map_append, List.map_cons, entries, List.filterMap_append, List.reverse_append,
        ← entries, ← entries, entries_cons, entry_of_leaves n hleaves, List.reverse_append,
        List.append_assoc] at honce
      apply List.Nodup.sublist _ honce
      rw [List.append_nil]
      exact (List.Sublist.refl _).append hback
  · intro name hname
    have hholds := nights_hold hplain (past ++ n::later) (noBackup_holds project) (by simp) hclock
    obtain ⟨m,hm,rfl⟩ := (hholds.names name).mp hname
    have hadded := (run_sublist [] ((past ++ n::later).map Night.round)).subset hm
    rw [List.append_nil, List.mem_reverse, entries, List.mem_filterMap] at hadded
    obtain ⟨round,hround,hentry⟩ := hadded
    obtain ⟨made,hmade,rfl⟩ := List.mem_map.mp hround
    obtain rfl := round_entry made m hentry
    exact ⟨made,hmade,leaves_of_entry made _ hentry,rfl⟩

def firstNight : Night where
  moment := ⟨2026,9,26,3,0,0,by decide,by decide,by decide,by decide,by decide,by decide⟩
  keep := 1
  ending := .rotating none

def tornNight : Night where
  moment := ⟨2026,9,27,3,0,0,by decide,by decide,by decide,by decide,by decide,by decide⟩
  keep := 1
  ending := .unverified

theorem torn_night_deletes_nothing :
    archive ['e','m','m','a'] firstNight.moment ∈
      ([firstNight,tornNight].foldl (night plainTools ['e','m','m','a']) noBackup).entries :=
  (archives_stay ['e','m','m','a'] (by decide) [] firstNight [tornNight]
    ⟨by decide,Ending.noConfusion⟩ (by decide)).1 id

end Emma.Nights
