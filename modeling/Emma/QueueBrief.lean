import Emma.Library.Runs
import Emma.Library.TempFile
import Emma.QueueMoves
import Emma.RowCounts

/-!
# The notice about waiting work

A session that starts, or a message that is sent, asks the server how much work is
queued and keeps the answer in a file, for when the server is out of reach. Any
number of these checks run side by side, step by step, while the queue moves; they
share the file and the temporary name that it is written under. The two lines of the
file are two writes, each of which is made whole or not at all.
-/

set_option autoImplicit false

namespace Emma.QueueBrief
open Emma.Tasks Emma.DevelopmentTools Emma.QueueScript Emma.QueueListing Emma.WatchTasks
open Runs TempFile Delimited

structure Settings where
  printer : Printer
  clock : Clock
  host : List Char
  cacheMaxAge : ℤ

inductive Phase where
  | gone
  | asking
  | storing (count : ℕ)
  | opening (count updated : ℕ)
  | writing (count updated file : ℕ)
  | writingCount (count updated file : ℕ)
  | moving (count : ℕ)
  | removing (count : ℕ)
  | falling
  | readingTime
  | readingCount (cachedAt : List Char)
  | aging (cachedAt cachedCount : List Char)
  | telling (count stale : List Char)
  | ended (printed : Option (List Char))
  deriving DecidableEq, Repr

/-- The checks by their process numbers, with the event each was started for. -/
structure Machine where
  stores : Stores
  disk : Disk Char
  event : ℕ → List Char
  phase : ℕ → Phase

/-- A step works, with what the clock of the session shows then, or it does not. -/
inductive Move where
  | queue (move : QueueMoves.Move)
  | starts (pid : ℕ) (event : List Char)
  | asks (pid : ℕ) (reached : Bool)
  | proceeds (pid now : ℕ)
  | fails (pid : ℕ)
  | killed (pid : ℕ)

def refresh : List Char := ['-','-','r','e','f','r','e','s','h']

def isEvent (event : List Char) : Bool :=
  event = refresh || event ≠ [] && event.all Char.isAlpha

def isNumber (text : List Char) : Bool := text ≠ [] && text.all Char.isDigit

def arithmetic (text : List Char) : Option ℕ :=
  let base := if text.head? = some '0' then 8 else 10
  if text.all fun c => c.toNat < '0'.toNat+base then some (Nat.ofDigitChars base text 0) else none

def updatedKey : List Char := ['u','p','d','a','t','e','d','=']

def countKey : List Char := ['c','o','u','n','t','=']

/-- A line that `write_cache` prints. -/
def recordLine (key : List Char) (number : ℕ) : List Char :=
  key ++ Nat.toDigits 10 number ++ ['\n']

def nul : Char := Char.ofNat 0

def field (name text : List Char) : List Char :=
  ((text.splitOn '\n').filter name.isPrefixOf).head?.elim [] fun line => line.drop name.length

def captured (text : List Char) : List Char := text.filter fun c => c ≠ nul

def inWords (secs : ℕ) : List Char :=
  if secs < 90 then "meno di un minuto fa".toList
  else if secs < 5400 then Nat.toDigits 10 ((secs+30)/60) ++ " minuti fa".toList
  else Nat.toDigits 10 ((secs+1800)/3600) ++ " ore fa".toList

def staleNote (age : ℕ) : List Char :=
  " (il server non risponde; dato di ".toList ++ inWords age ++ [')']

def cached (b : Settings) (now : ℕ) (cachedAt cachedCount : List Char) :
    List Char × List Char :=
  if isNumber cachedAt && isNumber cachedCount then
    match arithmetic cachedAt with
    | some updated =>
      let age : ℤ := now-updated
      if 0 ≤ age ∧ age ≤ b.cacheMaxAge then (cachedCount,staleNote age.toNat) else ([],[])
    | none => ([],[])
  else ([],[])

def summary (count : List Char) (value : ℕ) : List Char :=
  if value = 1 then "C'e' 1 lavoro di sviluppo commissionato in attesa.".toList
  else "Ci sono ".toList ++ count ++ " lavori di sviluppo commissionati in attesa.".toList

def context (b : Settings) (summary stale : List Char) : List Char :=
  summary ++ stale ++ " Leggili con: ssh ".toList ++ b.host ++ " list".toList

def line (b : Settings) (event summary stale : List Char) : List Char :=
  "\x7b\"hookSpecificOutput\":\x7b\"hookEventName\":\"".toList ++ event ++
    "\",\"additionalContext\":\"".toList ++ context b summary stale ++ "\"\x7d\x7d\n".toList

def told (b : Settings) (event count stale : List Char) : Option (List Char) :=
  if event = refresh then none
  else if isNumber count = false then none
  else match arithmetic count with
    | some value => if 0 < value then some (line b event (summary count value) stale) else none
    | none => none

namespace Machine
variable (b : Settings)

def setPhase (m : Machine) (pid : ℕ) (phase : Phase) : Machine :=
  { m with phase := Function.update m.phase pid phase }

def ask (m : Machine) (pid : ℕ) (reached : Bool) : Machine :=
  match m.phase pid with
  | .asking =>
    let (listing,s) := readQueue b.printer b.clock reached m.stores
    { m with stores := s }.setPhase pid
      (listing.elim .falling fun listing => .storing (RowCounts.counted listing))
  | _ => m

def proceed (m : Machine) (pid now : ℕ) : Machine :=
  match m.phase pid with
  | .storing count => m.setPhase pid (.opening count now)
  | .opening count updated =>
    let (disk,file) := m.disk.truncate
    { m with disk := disk }.setPhase pid (.writing count updated file)
  | .writing count updated file =>
    { m with disk := m.disk.write nul file 0 (recordLine updatedKey updated) }.setPhase pid
      (.writingCount count updated file)
  | .writingCount count updated file =>
    let offset := (recordLine updatedKey updated).length
    { m with disk := m.disk.write nul file offset (recordLine countKey count) }.setPhase pid
      (.moving count)
  | .moving count =>
    match m.disk.publish with
    | some disk => { m with disk := disk }.setPhase pid (.telling (Nat.toDigits 10 count) [])
    | none => m.setPhase pid (.removing count)
  | .removing count =>
    { m with disk := m.disk.remove }.setPhase pid (.telling (Nat.toDigits 10 count) [])
  | .falling => m.setPhase pid (if m.disk.published.isSome then .readingTime else .telling [] [])
  | .readingTime =>
    m.setPhase pid (.readingCount (captured (field updatedKey (m.disk.read.getD []))))
  | .readingCount cachedAt =>
    m.setPhase pid (.aging cachedAt (captured (field countKey (m.disk.read.getD []))))
  | .aging cachedAt cachedCount =>
    let (count,stale) := cached b now cachedAt cachedCount
    m.setPhase pid (.telling count stale)
  | .telling count stale => m.setPhase pid (.ended (told b (m.event pid) count stale))
  | _ => m

/-- `mkdir`, the write or the rename fails, or the file cannot be read. -/
def fail (m : Machine) (pid : ℕ) : Machine :=
  match m.phase pid with
  | .storing count => m.setPhase pid (.telling (Nat.toDigits 10 count) [])
  | .opening count _ => m.setPhase pid (.telling (Nat.toDigits 10 count) [])
  | .writing count _ _ => m.setPhase pid (.telling (Nat.toDigits 10 count) [])
  | .writingCount count _ _ => m.setPhase pid (.telling (Nat.toDigits 10 count) [])
  | .moving count => m.setPhase pid (.removing count)
  | .removing count => m.setPhase pid (.telling (Nat.toDigits 10 count) [])
  | .falling => m.setPhase pid (.telling [] [])
  | .readingTime => m.setPhase pid (.readingCount [])
  | .readingCount cachedAt => m.setPhase pid (.aging cachedAt [])
  | _ => m

def start (m : Machine) (pid : ℕ) (event : List Char) : Machine :=
  match m.phase pid with
  | .gone | .ended _ =>
    { m with event := Function.update m.event pid event }.setPhase pid
      (if isEvent event then .asking else .ended none)
  | _ => m

def step (m : Machine) : Move → Machine
  | .queue move => { m with stores := move.perform b.clock m.stores }
  | .starts pid event => m.start pid event
  | .asks pid reached => m.ask b pid reached
  | .proceeds pid now => m.proceed b pid now
  | .fails pid => m.fail pid
  | .killed pid => m.setPhase pid .gone

def before (s : Stores) : Machine := ⟨s,.empty,fun _ => [],fun _ => .gone⟩

end Machine

/-! What is read back of a file in which checks have met. -/

theorem isNumber_digits (n : ℕ) : isNumber (Nat.toDigits 10 n) = true := by
  have hall : (Nat.toDigits 10 n).all Char.isDigit = true := by
    rw [List.all_eq_true]
    exact digits_run n
  simp [isNumber, hall, Nat.toDigits_ne_nil]

theorem arithmetic_digits (n : ℕ) : arithmetic (Nat.toDigits 10 n) = some n := by
  by_cases hn : n = 0
  · rw [hn]
    rfl
  · have hlead := digits_lead n (Nat.pos_of_ne_zero hn)
    have hall : (Nat.toDigits 10 n).all (fun c => c.toNat < '0'.toNat+10) = true := by
      rw [List.all_eq_true]
      intro c hc
      have hdigit := digits_run n c hc
      simp only [Char.isDigit, Bool.and_eq_true, decide_eq_true_eq] at hdigit
      have hle : c.toNat ≤ '9'.toNat := hdigit.2
      have hnine : '9'.toNat = '0'.toNat+9 := rfl
      simp only [decide_eq_true_eq]
      omega
    rw [arithmetic]
    simp only [if_neg hlead, hall, if_true, Nat.ofDigitChars_ten_toDigits]

theorem digits_no_newline (n : ℕ) : '\n' ∉ Nat.toDigits 10 n := fun h => by
  simpa using digits_run n '\n' h

/-- What is read of a field is nothing, or stands behind its name somewhere. -/
theorem field_cases (name text : List Char) : field name text = [] ∨
    ∃ front back, text = front ++ name ++ back ∧
      field name text = back.takeWhile fun c => c ≠ '\n' := by
  rw [field]
  cases hfirst : ((text.splitOn '\n').filter name.isPrefixOf).head? with
  | none => exact .inl rfl
  | some line =>
    right
    obtain ⟨hline,hname⟩ := List.mem_filter.mp (List.mem_of_head? hfirst)
    obtain ⟨value,rfl⟩ := List.isPrefixOf_iff_prefix.mp hname
    obtain ⟨hnone,front,back,htext,hends⟩ := mem_splitOn '\n' text _ hline
    have hvalue : (value ++ back).takeWhile (fun c => c ≠ '\n') = value := by
      apply takeWhile_run
      · intro c hc
        simpa using fun hnewline : c = '\n' => hnone (hnewline ▸ List.mem_append_right _ hc)
      · intro c hc
        simpa using hends c hc
    exact ⟨front,value ++ back,by rw [htext]; simp,by rw [Option.elim_some, List.drop_left, hvalue]⟩

theorem captured_digits (n : ℕ) : captured (Nat.toDigits 10 n) = Nat.toDigits 10 n := by
  rw [captured, List.filter_eq_self]
  intro c hc
  have hdigit := digits_run n c hc
  have hnul : nul.isDigit = false := by decide
  simpa using fun h : c = nul => by simp [h, hnul] at hdigit

theorem not_isNumber {value : List Char} {c : Char} (hc : c ∈ value) (hdigit : c.isDigit = false)
    (hnul : c ≠ nul) : isNumber (captured value) = false := by
  have hkept : c ∈ captured value := List.mem_filter.mpr ⟨hc,by simpa using hnul⟩
  have hnot : (captured value).all Char.isDigit = false := by
    rw [List.all_eq_false]
    exact ⟨c,hkept,by simp [hdigit]⟩
  rw [isNumber, hnot, Bool.and_false]

section
variable {P : List Char → Prop}

theorem valued_line {key rest : List Char} {first : Char} (n : ℕ) (hkey : key = first::rest)
    (hdigit : first.isDigit = false) (hown : first ∉ rest ++ ['\n'])
    (hvalue : P (Nat.toDigits 10 n)) : Valued P key '\n' (recordLine key n) := by
  subst hkey
  apply valued_once _ (digits_no_newline n) hvalue
  simp only [List.mem_append, not_or] at hown ⊢
  refine ⟨⟨hown.1,fun hmem => ?_⟩,hown.2⟩
  rw [digits_run n first hmem] at hdigit
  cases hdigit

theorem valued_other {key own : List Char} (a : Char) (n : ℕ) (ha : a ∈ key)
    (hdigit : a.isDigit = false) (hown : a ∉ own ++ ['\n']) :
    Valued P key '\n' (recordLine own n) := by
  have hnone : a ∉ recordLine own n := by
    simp only [recordLine, List.mem_append, not_or] at hown ⊢
    refine ⟨⟨hown.1,fun hmem => ?_⟩,hown.2⟩
    rw [digits_run n a hmem] at hdigit
    cases hdigit
  exact valued_without ha hnone

end

section
variable (b : Settings)

theorem told_digits (event stale : List Char) (count : ℕ) :
    told b event (Nat.toDigits 10 count) stale = if event = refresh ∨ count = 0 then none
      else some (line b event (summary (Nat.toDigits 10 count) count) stale) := by
  rw [told, isNumber_digits, arithmetic_digits]
  by_cases hrefresh : event = refresh
  · simp [hrefresh]
  · by_cases hzero : count = 0
    · simp [hrefresh, hzero]
    · simp [hrefresh, hzero, Nat.pos_of_ne_zero hzero]

theorem told_nothing (event stale : List Char) : told b event [] stale = none := by
  rw [told]
  split <;> rfl

/-- What is in the file is passed on where it is of no later than now, and new
enough. -/
theorem cached_digits (now updated count : ℕ) :
    cached b now (Nat.toDigits 10 updated) (Nat.toDigits 10 count) =
      if updated ≤ now ∧ (now : ℤ)-updated ≤ b.cacheMaxAge
        then (Nat.toDigits 10 count,staleNote (now-updated)) else ([],[]) := by
  have hage : ((now : ℤ)-updated).toNat = now-updated := by omega
  rw [cached, isNumber_digits, isNumber_digits, arithmetic_digits]
  simp only [Bool.and_self, if_true, hage, Int.sub_nonneg, Nat.cast_le]

theorem cached_nothing (now : ℕ) (cachedAt cachedCount : List Char)
    (h : isNumber cachedAt = false ∨ isNumber cachedCount = false) :
    cached b now cachedAt cachedCount = ([],[]) := by
  rcases h with h | h <;> simp [cached, h]

variable (s : Stores)

def run (moves : List Move) : Machine := after (Machine.step b) moves (.before s)

def Answered (pid count : ℕ) (m : Machine) (move : Move) : Prop :=
  move = .asks pid true ∧ m.phase pid = .asking ∧ (queued m.stores.tasks).length = count

def Unanswered (pid : ℕ) (m : Machine) (move : Move) : Prop :=
  move = .asks pid false ∧ m.phase pid = .asking

def Counted (moves : List Move) (pid count : ℕ) : Prop :=
  Since (Machine.step b) (Answered pid count) (fun m => m.phase pid ≠ .asking) moves (.before s)

def Unreached (moves : List Move) (pid : ℕ) : Prop :=
  Since (Machine.step b) (Unanswered pid) (fun m => m.phase pid ≠ .asking) moves (.before s)

def Checked (moves : List Move) (count updated : ℕ) : Prop :=
  ∃ front pid back, moves = front ++ .proceeds pid updated::back ∧
    Since (Machine.step b) (Answered pid count) (fun m => m.phase pid = .storing count) front
      (.before s)

def Stale (moves : List Move) (pid : ℕ) (count stale : List Char) : Prop :=
  ∃ n later n' updated now, Checked b s moves n later ∧ Checked b s moves n' updated ∧
    .proceeds pid now ∈ moves ∧ updated ≤ now ∧ (now : ℤ)-updated ≤ b.cacheMaxAge ∧
      count = Nat.toDigits 10 n ∧ stale = staleNote (now-updated)

def Telling (moves : List Move) (pid : ℕ) (count stale : List Char) : Prop :=
  (∃ n, Counted b s moves pid n ∧ count = Nat.toDigits 10 n ∧ stale = []) ∨
    Unreached b s moves pid ∧
      (count = [] ∧ stale = [] ∨ Stale b s moves pid count stale)

def FromCheck (moves : List Move) (number : ℕ → ℕ → ℕ) (text : List Char) : Prop :=
  isNumber text = false ∨ ∃ count updated, Checked b s moves count updated ∧
    text = Nat.toDigits 10 (number count updated)

def Justified (moves : List Move) (pid : ℕ) (event : List Char) : Phase → Prop
  | .gone => True
  | .asking => True
  | .storing count => Since (Machine.step b) (Answered pid count)
      (fun m => m.phase pid = .storing count) moves (.before s)
  | .opening count updated => Counted b s moves pid count ∧ Checked b s moves count updated
  | .writing count updated _ => Counted b s moves pid count ∧ Checked b s moves count updated
  | .writingCount count updated _ => Counted b s moves pid count ∧ Checked b s moves count updated
  | .moving count => Counted b s moves pid count
  | .removing count => Counted b s moves pid count
  | .falling => Unreached b s moves pid
  | .readingTime => Unreached b s moves pid
  | .readingCount cachedAt =>
    Unreached b s moves pid ∧ FromCheck b s moves (fun _ updated => updated) cachedAt
  | .aging cachedAt cachedCount =>
    Unreached b s moves pid ∧ FromCheck b s moves (fun _ updated => updated) cachedAt ∧
      FromCheck b s moves (fun count _ => count) cachedCount
  | .telling count stale => Telling b s moves pid count stale
  | .ended printed => isEvent event = false ∧ printed = none ∨
      ∃ count stale, Telling b s moves pid count stale ∧ printed = told b event count stale

def Readable (moves : List Move) (content : List Char) : Prop :=
  Valued (fun value => FromCheck b s moves (fun _ updated => updated) (captured value))
      updatedKey '\n' content ∧
    Valued (fun value => FromCheck b s moves (fun count _ => count) (captured value))
      countKey '\n' content

structure Sound (moves : List Move) : Prop where
  disk : (run b s moves).disk.Holds (Readable b s moves)
  phase : ∀ pid, Justified b s moves pid ((run b s moves).event pid) ((run b s moves).phase pid)

end

section
variable {b : Settings} {s : Stores} {moves : List Move} {pid : ℕ} (move : Move)

theorem Checked.concat {count updated : ℕ} (h : Checked b s moves count updated) :
    Checked b s (moves ++ [move]) count updated := by
  obtain ⟨front,asker,back,rfl,hasked⟩ := h
  exact ⟨front,asker,back ++ [move],by simp,hasked⟩

theorem FromCheck.concat {number : ℕ → ℕ → ℕ} {text : List Char}
    (h : FromCheck b s moves number text) : FromCheck b s (moves ++ [move]) number text := by
  rcases h with hnil | ⟨count,updated,hchecked,htext⟩
  · exact .inl hnil
  · exact .inr ⟨count,updated,hchecked.concat move,htext⟩

theorem Readable.concat {content : List Char} (h : Readable b s moves content) :
    Readable b s (moves ++ [move]) content :=
  ⟨h.1.mono fun _ hvalue => hvalue.concat move,h.2.mono fun _ hvalue => hvalue.concat move⟩

variable (hphase : (run b s (moves ++ [move])).phase pid ≠ .asking)
include hphase

theorem Counted.concat {count : ℕ} (h : Counted b s moves pid count) :
    Counted b s (moves ++ [move]) pid count :=
  Since.concat h move hphase

theorem Unreached.concat (h : Unreached b s moves pid) : Unreached b s (moves ++ [move]) pid :=
  Since.concat h move hphase

theorem Telling.concat {count stale : List Char} (h : Telling b s moves pid count stale) :
    Telling b s (moves ++ [move]) pid count stale := by
  rcases h with ⟨n,hcounted,htexts⟩ | ⟨hunreached,hnil | hstale⟩
  · exact .inl ⟨n,hcounted.concat move hphase,htexts⟩
  · exact .inr ⟨hunreached.concat move hphase,.inl hnil⟩
  · obtain ⟨n,later,n',updated,now,hcount,hupdated,hnow,hrest⟩ := hstale
    exact .inr ⟨hunreached.concat move hphase,.inr ⟨n,later,n',updated,now,hcount.concat move,
      hupdated.concat move,List.mem_append_left _ hnow,hrest⟩⟩

end

section
variable {b : Settings} {s : Stores} {moves : List Move}

theorem readable_nil : Readable b s moves [] :=
  ⟨valued_nil (by decide),valued_nil (by decide)⟩

theorem Readable.updated {content : List Char} (h : Readable b s moves content)
    {count updated : ℕ} (hchecked : Checked b s moves count updated) :
    Readable b s moves (overlay nul 0 (recordLine updatedKey updated) content) := by
  have hvalue : FromCheck b s moves (fun _ updated => updated)
      (captured (Nat.toDigits 10 updated)) := by
    rw [captured_digits]
    exact .inr ⟨count,updated,hchecked,rfl⟩
  have hother : 'c' ∉ updatedKey ++ ['\n'] := by decide
  constructor
  · exact h.1.overlay (by decide) (by decide) (by decide) (by decide) (by decide)
      (valued_line updated rfl (by decide) (by decide) hvalue) (.inl rfl)
  · exact h.2.overlay (by decide) (by decide) (by decide) (by decide) (by decide)
      (valued_other 'c' updated List.mem_cons_self (by decide) hother) (.inl rfl)

/-- The second line is written wherever the check is in the file. It may cut the line of
another check short, which is no number then. -/
theorem Readable.count {content : List Char} (h : Readable b s moves content) (offset : ℕ)
    {count updated : ℕ} (hchecked : Checked b s moves count updated) :
    Readable b s moves (overlay nul offset (recordLine countKey count) content) := by
  have hvalue : FromCheck b s moves (fun count _ => count)
      (captured (Nat.toDigits 10 count)) := by
    rw [captured_digits]
    exact .inr ⟨count,updated,hchecked,rfl⟩
  have hcut : ∀ (number : ℕ → ℕ → ℕ) (value : List Char), 'c' ∈ value →
      FromCheck b s moves number (captured value) :=
    fun number value hc => .inl (not_isNumber hc (by decide) (by decide))
  have hname : 'p' ∈ updatedKey := by decide
  have hother : 'p' ∉ countKey ++ ['\n'] := by decide
  constructor
  · exact h.1.overlay (by decide) (by decide) (by decide) (by decide) (by decide)
      (valued_other 'p' count hname (by decide) hother) (.inr ⟨by decide,hcut _⟩)
  · exact h.2.overlay (by decide) (by decide) (by decide) (by decide) (by decide)
      (valued_line count rfl (by decide) (by decide) hvalue) (.inr ⟨by decide,hcut _⟩)

theorem run_concat (move : Move) :
    run b s (moves ++ [move]) = (run b s moves).step b move := after_append _ moves [move] _

theorem Justified.kept {pid : ℕ} {event : List Char} {phase : Phase} (move : Move)
    (h : Justified b s moves pid event phase)
    (hphase : (run b s (moves ++ [move])).phase pid = phase) :
    Justified b s (moves ++ [move]) pid event phase := by
  have hother : phase ≠ .asking → (run b s (moves ++ [move])).phase pid ≠ .asking := by
    rw [hphase]
    exact id
  cases phase with
  | gone => trivial
  | asking => trivial
  | storing count => exact Since.concat h move hphase
  | opening count updated => exact ⟨h.1.concat move (hother (by simp)),h.2.concat move⟩
  | writing count updated file => exact ⟨h.1.concat move (hother (by simp)),h.2.concat move⟩
  | writingCount count updated file => exact ⟨h.1.concat move (hother (by simp)),h.2.concat move⟩
  | moving count => exact Counted.concat move (hother (by simp)) h
  | removing count => exact Counted.concat move (hother (by simp)) h
  | falling => exact Unreached.concat move (hother (by simp)) h
  | readingTime => exact Unreached.concat move (hother (by simp)) h
  | readingCount cachedAt => exact ⟨h.1.concat move (hother (by simp)),h.2.concat move⟩
  | aging cachedAt cachedCount =>
    exact ⟨h.1.concat move (hother (by simp)),h.2.1.concat move,h.2.2.concat move⟩
  | telling count stale => exact Telling.concat move (hother (by simp)) h
  | ended printed =>
    rcases h with hrefused | ⟨count,stale,htelling,hprinted⟩
    · exact .inl hrefused
    · exact .inr ⟨count,stale,htelling.concat move (hother (by simp)),hprinted⟩

namespace Machine
variable (m : Machine) (pid : ℕ)

@[simp] theorem setPhase_own (phase : Phase) : (m.setPhase pid phase).phase pid = phase := by
  simp [setPhase]

@[simp] theorem setPhase_other (phase : Phase) {q : ℕ} (hq : q ≠ pid) :
    (m.setPhase pid phase).phase q = m.phase q := by
  simp [setPhase, hq]

@[simp] theorem setPhase_event (phase : Phase) : (m.setPhase pid phase).event = m.event := rfl

@[simp] theorem setPhase_disk (phase : Phase) : (m.setPhase pid phase).disk = m.disk := rfl

theorem proceed_event (b : Settings) (now : ℕ) : (m.proceed b pid now).event = m.event := by
  unfold proceed
  repeat' split
  all_goals rfl

theorem fail_event : (m.fail pid).event = m.event := by
  unfold fail
  split <;> rfl

theorem fail_disk : (m.fail pid).disk = m.disk := by
  unfold fail
  split <;> rfl

theorem ask_event (b : Settings) (reached : Bool) : (m.ask b pid reached).event = m.event := by
  unfold ask
  split <;> rfl

theorem ask_disk (b : Settings) (reached : Bool) : (m.ask b pid reached).disk = m.disk := by
  unfold ask
  split <;> rfl

theorem start_disk (event : List Char) : (m.start pid event).disk = m.disk := by
  unfold start
  split <;> rfl

theorem proceed_other (b : Settings) (now : ℕ) {q : ℕ} (hq : q ≠ pid) :
    (m.proceed b pid now).phase q = m.phase q := by
  unfold proceed
  repeat' split
  all_goals simp [hq]

theorem fail_other {q : ℕ} (hq : q ≠ pid) : (m.fail pid).phase q = m.phase q := by
  unfold fail
  split <;> simp [hq]

theorem ask_other (b : Settings) (reached : Bool) {q : ℕ} (hq : q ≠ pid) :
    (m.ask b pid reached).phase q = m.phase q := by
  unfold ask
  split <;> simp [hq]

theorem start_other (event : List Char) {q : ℕ} (hq : q ≠ pid) :
    (m.start pid event).phase q = m.phase q ∧ (m.start pid event).event q = m.event q := by
  unfold start
  split <;> simp [hq]

end Machine

/-! One step of a check. -/

variable {pid : ℕ}

theorem storing_counted {count : ℕ}
    (h : Since (Machine.step b) (Answered pid count) (fun m => m.phase pid = .storing count) moves
      (.before s)) : Counted b s moves pid count :=
  h.mono fun m hstoring => by rw [hstoring]; simp

theorem FromCheck.read {key content : List Char} {number : ℕ → ℕ → ℕ}
    (h : Valued (fun value => FromCheck b s moves number (captured value)) key '\n' content) :
    FromCheck b s moves number (captured (field key content)) := by
  rcases field_cases key content with hnil | ⟨front,back,hcontent,hvalue⟩
  · rw [hnil]
    exact .inl rfl
  · rw [hvalue]
    exact h front back hcontent

theorem Sound.reads (h : Sound b s moves) :
    Readable b s moves ((run b s moves).disk.read.getD []) := by
  cases hcontent : (run b s moves).disk.read with
  | none => exact readable_nil
  | some content => exact h.disk.read content hcontent

theorem proceed_justified (h : Sound b s moves) (now : ℕ) :
    let last := run b s (moves ++ [.proceeds pid now])
    Justified b s (moves ++ [.proceeds pid now]) pid (last.event pid) (last.phase pid) := by
  intro last
  have hlast : last = (run b s moves).proceed b pid now := run_concat _
  have hjust := h.phase pid
  have hcounted {count : ℕ} (hphase : last.phase pid ≠ .asking)
      (hbefore : Counted b s moves pid count) :=
    hbefore.concat (.proceeds pid now) hphase
  have hunreached (hphase : last.phase pid ≠ .asking) (hbefore : Unreached b s moves pid) :=
    hbefore.concat (.proceeds pid now) hphase
  cases hphase : (run b s moves).phase pid with
  | storing count =>
    rw [hphase] at hjust
    have hnext : last.phase pid = .opening count now := by simp [hlast, Machine.proceed, hphase]
    rw [hnext]
    exact ⟨hcounted (by simp [hnext]) (storing_counted hjust),moves,pid,[],rfl,hjust⟩
  | opening count updated =>
    rw [hphase] at hjust
    have hnext : last.phase pid =
        .writing count updated (run b s moves).disk.truncate.2 := by
      simp [hlast, Machine.proceed, hphase]
    rw [hnext]
    exact ⟨hcounted (by simp [hnext]) hjust.1,hjust.2.concat _⟩
  | writing count updated file =>
    rw [hphase] at hjust
    have hnext : last.phase pid = .writingCount count updated file := by
      simp [hlast, Machine.proceed, hphase]
    rw [hnext]
    exact ⟨hcounted (by simp [hnext]) hjust.1,hjust.2.concat _⟩
  | writingCount count updated file =>
    rw [hphase] at hjust
    have hnext : last.phase pid = .moving count := by simp [hlast, Machine.proceed, hphase]
    rw [hnext]
    exact hcounted (by simp [hnext]) hjust.1
  | moving count =>
    rw [hphase] at hjust
    cases hdisk : (run b s moves).disk.publish with
    | some disk =>
      have hnext : last.phase pid = .telling (Nat.toDigits 10 count) [] := by
        simp [hlast, Machine.proceed, hphase, hdisk]
      rw [hnext]
      exact .inl ⟨count,hcounted (by simp [hnext]) hjust,rfl,rfl⟩
    | none =>
      have hnext : last.phase pid = .removing count := by
        simp [hlast, Machine.proceed, hphase, hdisk]
      rw [hnext]
      exact hcounted (by simp [hnext]) hjust
  | removing count =>
    rw [hphase] at hjust
    have hnext : last.phase pid = .telling (Nat.toDigits 10 count) [] := by
      simp [hlast, Machine.proceed, hphase]
    rw [hnext]
    exact .inl ⟨count,hcounted (by simp [hnext]) hjust,rfl,rfl⟩
  | falling =>
    rw [hphase] at hjust
    have hnext : last.phase pid =
        if (run b s moves).disk.published.isSome then .readingTime else .telling [] [] := by
      simp [hlast, Machine.proceed, hphase]
    rw [hnext]
    split
    · rename_i hsome
      exact hunreached (by simp [hnext, hsome]) hjust
    · rename_i hnone
      exact .inr ⟨hunreached (by simp [hnext, hnone]) hjust,.inl ⟨rfl,rfl⟩⟩
  | readingTime =>
    rw [hphase] at hjust
    have hnext : last.phase pid =
        .readingCount (captured (field updatedKey ((run b s moves).disk.read.getD []))) := by
      simp [hlast, Machine.proceed, hphase]
    rw [hnext]
    exact ⟨hunreached (by simp [hnext]) hjust,
      (FromCheck.read h.reads.1).concat _⟩
  | readingCount cachedAt =>
    rw [hphase] at hjust
    have hnext : last.phase pid =
        .aging cachedAt (captured (field countKey ((run b s moves).disk.read.getD []))) := by
      simp [hlast, Machine.proceed, hphase]
    rw [hnext]
    exact ⟨hunreached (by simp [hnext]) hjust.1,hjust.2.concat _,
      (FromCheck.read h.reads.2).concat _⟩
  | aging cachedAt cachedCount =>
    rw [hphase] at hjust
    have hnext : last.phase pid = .telling (cached b now cachedAt cachedCount).1
        (cached b now cachedAt cachedCount).2 := by
      simp [hlast, Machine.proceed, hphase]
    rw [hnext]
    obtain ⟨hbefore,hupdated,hcount⟩ := hjust
    refine .inr ⟨hunreached (by simp [hnext]) hbefore,?_⟩
    rcases hupdated with hnone | ⟨n',updated,hupdated,hat⟩
    · rw [cached_nothing b now _ _ (.inl hnone)]
      exact .inl ⟨rfl,rfl⟩
    rcases hcount with hnone | ⟨n,later,hcount,hn⟩
    · rw [cached_nothing b now _ _ (.inr hnone)]
      exact .inl ⟨rfl,rfl⟩
    rw [hat, hn, cached_digits]
    split
    · rename_i hage
      exact .inr ⟨n,later,n',updated,now,hcount.concat _,hupdated.concat _,by simp,hage.1,hage.2,
        rfl,rfl⟩
    · exact .inl ⟨rfl,rfl⟩
  | telling count stale =>
    rw [hphase] at hjust
    have hnext : last.phase pid =
        .ended (told b ((run b s moves).event pid) count stale) := by
      simp [hlast, Machine.proceed, hphase]
    have hevent : last.event pid = (run b s moves).event pid := by
      rw [hlast, Machine.proceed_event]
    rw [hnext, hevent]
    exact .inr ⟨count,stale,hjust.concat _ (by rw [hnext]; simp),rfl⟩
  | _ =>
    rw [hphase] at hjust
    have hnext : last.phase pid = (run b s moves).phase pid := by
      simp [hlast, Machine.proceed, hphase]
    have hevent : last.event pid = (run b s moves).event pid := by
      rw [hlast, Machine.proceed_event]
    rw [hnext, hevent, hphase]
    exact hjust.kept _ (hnext.trans hphase)

theorem fail_justified (h : Sound b s moves) :
    let last := run b s (moves ++ [.fails pid])
    Justified b s (moves ++ [.fails pid]) pid (last.event pid) (last.phase pid) := by
  intro last
  have hlast : last = (run b s moves).fail pid := run_concat _
  have hjust := h.phase pid
  have hgiven {count : ℕ} (hphase : last.phase pid = .telling (Nat.toDigits 10 count) [])
      (hbefore : Counted b s moves pid count) :
      Justified b s (moves ++ [.fails pid]) pid (last.event pid) (last.phase pid) := by
    rw [hphase]
    exact .inl ⟨count,hbefore.concat (.fails pid) (by rw [hphase]; simp),rfl,rfl⟩
  cases hphase : (run b s moves).phase pid with
  | storing count =>
    rw [hphase] at hjust
    exact hgiven (by simp [hlast, Machine.fail, hphase]) (storing_counted hjust)
  | opening count updated =>
    rw [hphase] at hjust
    exact hgiven (by simp [hlast, Machine.fail, hphase]) hjust.1
  | writing count updated file =>
    rw [hphase] at hjust
    exact hgiven (by simp [hlast, Machine.fail, hphase]) hjust.1
  | writingCount count updated file =>
    rw [hphase] at hjust
    exact hgiven (by simp [hlast, Machine.fail, hphase]) hjust.1
  | moving count =>
    rw [hphase] at hjust
    have hnext : last.phase pid = .removing count := by simp [hlast, Machine.fail, hphase]
    rw [hnext]
    exact Counted.concat (.fails pid) (by rw [hnext]; simp) hjust
  | removing count =>
    rw [hphase] at hjust
    exact hgiven (by simp [hlast, Machine.fail, hphase]) hjust
  | falling =>
    rw [hphase] at hjust
    have hnext : last.phase pid = .telling [] [] := by simp [hlast, Machine.fail, hphase]
    rw [hnext]
    exact .inr ⟨Unreached.concat (.fails pid) (by rw [hnext]; simp) hjust,.inl ⟨rfl,rfl⟩⟩
  | readingTime =>
    rw [hphase] at hjust
    have hnext : last.phase pid = .readingCount [] := by simp [hlast, Machine.fail, hphase]
    rw [hnext]
    exact ⟨Unreached.concat (.fails pid) (by rw [hnext]; simp) hjust,.inl rfl⟩
  | readingCount cachedAt =>
    rw [hphase] at hjust
    have hnext : last.phase pid = .aging cachedAt [] := by simp [hlast, Machine.fail, hphase]
    rw [hnext]
    exact ⟨hjust.1.concat (.fails pid) (by rw [hnext]; simp),hjust.2.concat _,.inl rfl⟩
  | _ =>
    rw [hphase] at hjust
    have hnext : last.phase pid = (run b s moves).phase pid := by
      simp [hlast, Machine.fail, hphase]
    have hevent : last.event pid = (run b s moves).event pid := by
      rw [hlast, Machine.fail_event]
    rw [hnext, hevent, hphase]
    exact hjust.kept _ (hnext.trans hphase)

theorem readQueue_counted (p : Printer) (clock : Clock) (s : Stores) :
    ∃ listing, (readQueue p clock true s).1 = some listing ∧
      RowCounts.counted listing = (queued s.tasks).length := by
  refine ⟨_,(readQueue_eq p clock s).1,?_⟩
  have hbehind := congrArg List.length (p.behind_rows (queued s.tasks))
  rw [List.length_map, List.length_map] at hbehind
  rw [RowCounts.counted_eq, hbehind]

theorem ask_justified (h : Sound b s moves) (reached : Bool) :
    let last := run b s (moves ++ [.asks pid reached])
    Justified b s (moves ++ [.asks pid reached]) pid (last.event pid) (last.phase pid) := by
  intro last
  have hlast : last = (run b s moves).ask b pid reached := run_concat _
  have hjust := h.phase pid
  by_cases hphase : (run b s moves).phase pid = .asking
  · cases reached with
    | true =>
      obtain ⟨listing,hlisting,hcount⟩ :=
        readQueue_counted b.printer b.clock (run b s moves).stores
      have hnext : last.phase pid = .storing (queued (run b s moves).stores.tasks).length := by
        simp [hlast, Machine.ask, hphase, hlisting, hcount]
      rw [hnext]
      exact since_last ⟨rfl,hphase,rfl⟩ hnext
    | false =>
      have hnext : last.phase pid = .falling := by
        simp [hlast, Machine.ask, hphase, readQueue]
      rw [hnext]
      have hasked : last.phase pid ≠ .asking := by
        rw [hnext]
        simp
      exact since_last ⟨rfl,hphase⟩ hasked
  · have hsame : last = run b s moves := by
      rw [hlast, Machine.ask]
      split
      · rename_i hasking
        exact absurd hasking hphase
      · rfl
    rw [hsame]
    exact hjust.kept _ (congrArg (fun m => m.phase pid) hsame)

theorem start_justified (h : Sound b s moves) (event : List Char) :
    let last := run b s (moves ++ [.starts pid event])
    Justified b s (moves ++ [.starts pid event]) pid (last.event pid) (last.phase pid) := by
  intro last
  have hlast : last = (run b s moves).start pid event := run_concat _
  by_cases hdone : (run b s moves).phase pid = .gone ∨ ∃ printed,
      (run b s moves).phase pid = .ended printed
  · have hnext : last.phase pid = (if isEvent event then .asking else .ended none) ∧
        last.event pid = event := by
      rcases hdone with hphase | ⟨printed,hphase⟩ <;> simp [hlast, Machine.start, hphase]
    rw [hnext.1, hnext.2]
    split
    · trivial
    · rename_i hrefused
      exact .inl ⟨by simpa using hrefused,rfl⟩
  · have hsame : last = run b s moves := by
      rw [hlast, Machine.start]
      split
      · rename_i hgone
        exact absurd (.inl hgone) hdone
      · rename_i hended
        exact absurd (.inr ⟨_,hended⟩) hdone
      · rfl
    rw [hsame]
    exact (h.phase pid).kept _ (congrArg (fun m => m.phase pid) hsame)

end

section
variable {b : Settings} {s : Stores} {moves : List Move}

theorem Sound.others (h : Sound b s moves) (move : Move) (pid : ℕ)
    (hothers : ∀ q, q ≠ pid →
      (run b s (moves ++ [move])).phase q = (run b s moves).phase q ∧
        (run b s (moves ++ [move])).event q = (run b s moves).event q)
    (hown : let last := run b s (moves ++ [move])
      Justified b s (moves ++ [move]) pid (last.event pid) (last.phase pid)) (q : ℕ) :
    let last := run b s (moves ++ [move])
    Justified b s (moves ++ [move]) q (last.event q) (last.phase q) := by
  intro last
  by_cases hq : q = pid
  · rw [hq]
    exact hown
  · obtain ⟨hphase,hevent⟩ := hothers q hq
    rw [hevent, hphase]
    exact (h.phase q).kept move hphase

theorem Sound.disk_kept (h : Sound b s moves) (move : Move)
    (hdisk : (run b s (moves ++ [move])).disk = (run b s moves).disk) :
    (run b s (moves ++ [move])).disk.Holds (Readable b s (moves ++ [move])) := by
  rw [hdisk]
  exact h.disk.mono fun text htext => htext.concat move

theorem proceed_disk (h : Sound b s moves) (pid now : ℕ) :
    (run b s (moves ++ [.proceeds pid now])).disk.Holds
      (Readable b s (moves ++ [.proceeds pid now])) := by
  have hmore : (run b s moves).disk.Holds (Readable b s (moves ++ [.proceeds pid now])) :=
    h.disk.mono fun text htext => htext.concat _
  have hlast : run b s (moves ++ [.proceeds pid now]) = (run b s moves).proceed b pid now :=
    run_concat _
  have hjust := h.phase pid
  rw [hlast]
  cases hphase : (run b s moves).phase pid with
  | opening count updated =>
    simpa [Machine.proceed, hphase] using hmore.truncate readable_nil
  | writing count updated file =>
    rw [hphase] at hjust
    have hwritten := hmore.write nul file 0 (recordLine updatedKey updated)
      fun content hcontent => hcontent.updated (hjust.2.concat _)
    simpa [Machine.proceed, hphase] using hwritten
  | writingCount count updated file =>
    rw [hphase] at hjust
    have hwritten := hmore.write nul file (recordLine updatedKey updated).length
      (recordLine countKey count) fun content hcontent => hcontent.count _ (hjust.2.concat _)
    simpa [Machine.proceed, hphase] using hwritten
  | moving count =>
    cases hdisk : (run b s moves).disk.publish with
    | some disk => simpa [Machine.proceed, hphase, hdisk] using hmore.publish disk hdisk
    | none => simpa [Machine.proceed, hphase, hdisk] using hmore
  | removing count => simpa [Machine.proceed, hphase] using hmore.remove
  | _ => simpa [Machine.proceed, hphase] using hmore

theorem Sound.concat (h : Sound b s moves) (move : Move) : Sound b s (moves ++ [move]) := by
  have hlast : run b s (moves ++ [move]) = (run b s moves).step b move := run_concat move
  cases move with
  | queue move =>
    constructor
    · exact h.disk_kept _ (by rw [hlast]; rfl)
    · intro pid
      have hphase : (run b s (moves ++ [.queue move])).phase pid = (run b s moves).phase pid := by
        rw [hlast]
        rfl
      have hevent : (run b s (moves ++ [.queue move])).event pid = (run b s moves).event pid := by
        rw [hlast]
        rfl
      rw [hphase, hevent]
      exact (h.phase pid).kept _ hphase
  | starts pid event =>
    constructor
    · exact h.disk_kept _ (by rw [hlast]; exact Machine.start_disk _ pid event)
    · apply h.others _ pid
      · intro q hq
        rw [hlast]
        exact Machine.start_other _ pid event hq
      · exact start_justified h event
  | asks pid reached =>
    constructor
    · exact h.disk_kept _ (by rw [hlast]; exact Machine.ask_disk _ pid b reached)
    · apply h.others _ pid
      · intro q hq
        rw [hlast]
        exact ⟨Machine.ask_other _ pid b reached hq,by rw [Machine.step, Machine.ask_event]⟩
      · exact ask_justified h reached
  | proceeds pid now =>
    constructor
    · exact proceed_disk h pid now
    · apply h.others _ pid
      · intro q hq
        rw [hlast]
        exact ⟨Machine.proceed_other _ pid b now hq,by rw [Machine.step, Machine.proceed_event]⟩
      · exact proceed_justified h now
  | fails pid =>
    constructor
    · exact h.disk_kept _ (by rw [hlast]; exact Machine.fail_disk _ pid)
    · apply h.others _ pid
      · intro q hq
        rw [hlast]
        exact ⟨Machine.fail_other _ pid hq,by rw [Machine.step, Machine.fail_event]⟩
      · exact fail_justified h
  | killed pid =>
    constructor
    · exact h.disk_kept _ (by rw [hlast]; rfl)
    · apply h.others _ pid
      · intro q hq
        rw [hlast]
        exact ⟨Machine.setPhase_other _ pid .gone hq,rfl⟩
      · intro last
        have hgone : last.phase pid = .gone := by
          rw [show last = _ from hlast]
          exact Machine.setPhase_own _ pid .gone
        rw [hgone]
        trivial

variable (b s)

theorem run_sound (moves : List Move) : Sound b s moves := by
  induction moves using List.reverseRecOn with
  | nil => exact ⟨Disk.holds_empty readable_nil,fun _ => trivial⟩
  | append_singleton moves move ih => exact ih.concat move

/-- Nothing for an event that is not known; where the server answered, what was queued
then, unless that is nothing or nothing was to be said; else nothing, or the number
that was queued when some check was answered, and the age of such an answer. -/
def Accounted (moves : List Move) (pid : ℕ) (event : List Char) (printed : Option (List Char)) :
    Prop :=
  let notice := fun (count : ℕ) stale =>
    line b event (summary (Nat.toDigits 10 count) count) stale
  isEvent event = false ∧ printed = none ∨
    (∃ count, Counted b s moves pid count ∧
      printed = if event = refresh ∨ count = 0 then none else some (notice count [])) ∨
    Unreached b s moves pid ∧ (printed = none ∨ event ≠ refresh ∧
      ∃ count later count' updated now, 0 < count ∧ Checked b s moves count later ∧
        Checked b s moves count' updated ∧ .proceeds pid now ∈ moves ∧ updated ≤ now ∧
        (now : ℤ)-updated ≤ b.cacheMaxAge ∧
        printed = some (notice count (staleNote (now-updated))))

/-- What a check has printed when it ends is accounted for, with any others at its
side and whatever fails or is killed. -/
theorem notices_tell_a_count (moves : List Move) (pid : ℕ) (printed : Option (List Char))
    (h : (run b s moves).phase pid = .ended printed) :
    Accounted b s moves pid ((run b s moves).event pid) printed := by
  have hjust := (run_sound b s moves).phase pid
  rw [h] at hjust
  rcases hjust with hrefused | ⟨count,stale,htelling,rfl⟩
  · exact .inl hrefused
  rcases htelling with ⟨n,hcounted,rfl,rfl⟩ | ⟨hunreached,⟨rfl,rfl⟩ | hstale⟩
  · exact .inr (.inl ⟨n,hcounted,told_digits b _ [] n⟩)
  · exact .inr (.inr ⟨hunreached,.inl (told_nothing b _ [])⟩)
  · obtain ⟨n,later,n',updated,now,hcount,hupdated,hnow,hle,hage,rfl,rfl⟩ := hstale
    refine .inr (.inr ⟨hunreached,?_⟩)
    rw [told_digits]
    split
    · exact .inl rfl
    · rename_i hspoken
      obtain ⟨hrefresh,hzero⟩ := not_or.mp hspoken
      exact .inr ⟨hrefresh,n,later,n',updated,now,Nat.pos_of_ne_zero hzero,hcount,hupdated,hnow,
        hle,hage,rfl⟩

end

def lunchTime : List Move :=
  [.starts 1 refresh,.asks 1 true] ++ List.replicate 6 (.proceeds 1 1000) ++
    [.starts 2 ['S','t','a','r','t'],.asks 2 false] ++ List.replicate 5 (.proceeds 2 1100)

def atHome : Settings where
  printer :=
    { time := fun _ => ['0']
      other := List.singleton
      time_plain := fun _ => by decide
      other_plain := fun _ hc h => hc (List.mem_singleton.mp h).symm }
  clock := fun n => n
  host := ['e','m','m','a']
  cacheMaxAge := 86400

def oneWaits : Stores :=
  { Stores.empty with
    tasks := (∅ : TaskTable).insert ⟨"promemoria",.new,.queued,"","",0,0⟩ }

theorem lunch_time_notice : Accounted atHome oneWaits lunchTime 2 ['S','t','a','r','t']
    (some (line atHome ['S','t','a','r','t'] (summary ['1'] 1) (staleNote 100))) :=
  notices_tell_a_count atHome oneWaits lunchTime 2 _ rfl

end Emma.QueueBrief
