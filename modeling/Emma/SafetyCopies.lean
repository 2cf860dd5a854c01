import Emma.DeployStamp
import Emma.Library.Runs
import Emma.Python

/-!
# Something to fall back on

Before it stops the service, a deploy puts a copy of the settings and the data aside, by
the local time. Copies that are old enough go when the service is back, and it may be
that not all of them can be removed. Where a step fails the deploy ends there.
-/

set_option autoImplicit false

namespace Emma.SafetyCopies
open Runs Emma.Python
open Emma.DeployStamp (second)

structure SafetyCopy (γ : Type) where
  time : ℕ
  content : γ

inductive Phase where
  | idle
  | copied
  | stopped
  | back
  deriving DecidableEq

structure Server (γ : Type) where
  now : ℕ
  live : γ
  copies : String → Option (SafetyCopy γ)
  phase : Phase

inductive Move (γ : Type) where
  | waits (nanoseconds : ℕ)
  | changes (live : γ)
  | byHand (name : String) (content : Option γ)
  -- what `cp` leaves, of what was there and of what is live
  | copies (left : Option γ → γ → γ)
  | stops
  | starts
  | prunes (keepDays : ℕ) (spared : String → Bool)
  | fails

def safe (stamp : ℕ → String) (now : ℕ) : String := "emma-pre-deploy-" ++ stamp now

/-- What `find` has to say: `-name 'emma-pre-*' -mtime "+${KEEP_DAYS}"`. -/
def expired (keepDays now : ℕ) (name : String) (time : ℕ) : Bool :=
  startsWith name "emma-pre-" && keepDays < (now-time)/(86400*second)

section
variable {γ : Type} (stamp : ℕ → String)

def copied (s : Server γ) (left : Option γ → γ → γ) : SafetyCopy γ :=
  match s.copies (safe stamp s.now) with
  | none => ⟨s.now,left none s.live⟩
  | some old => ⟨old.time,left (some old.content) s.live⟩

def step (s : Server γ) : Move γ → Server γ
  | .waits nanoseconds => { s with now := s.now+nanoseconds }
  | .changes live => { s with live := live }
  | .byHand name content =>
    { s with copies := Function.update s.copies name (content.map fun found => ⟨s.now,found⟩) }
  | .copies left =>
    if s.phase = .idle then
      { s with
        copies := Function.update s.copies (safe stamp s.now) (some (copied stamp s left))
        phase := .copied }
    else s
  | .stops => if s.phase = .copied then { s with phase := .stopped } else s
  | .starts => if s.phase = .stopped then { s with phase := .back } else s
  | .prunes keepDays spared =>
    if s.phase = .back then
      { s with
        copies := fun name => (s.copies name).filter fun copy =>
          !expired keepDays s.now name copy.time || spared name
        phase := .idle }
    else s
  | .fails => { s with phase := .idle }

def Writes (name : String) (s : Server γ) : Move γ → Prop
  | .byHand other _ => other = name
  | .copies _ => s.phase = .idle ∧ safe stamp s.now = name
  | _ => False

def pruned (name : String) (time : ℕ) (s : Server γ) : Move γ → Bool
  | .prunes keepDays spared =>
    s.phase = .back && expired keepDays s.now name time && !spared name
  | _ => false

variable {stamp} {name : String} {s : Server γ}

/-- Where nothing is written under a name, only a deploy that is done removes it. -/
theorem step_copies (move : Move γ) (hown : ¬Writes stamp name s move) :
    (step stamp s move).copies name =
      (s.copies name).filter fun copy => !pruned name copy.time s move := by
  have hkept : (s.copies name).filter (fun _ => !false) = s.copies name := by
    cases s.copies name <;> rfl
  cases move with
  | byHand other content => exact (Function.update_of_ne (Ne.symm hown) _ _).trans hkept.symm
  | copies left =>
    rw [step]
    split
    · rename_i hidle
      exact (Function.update_of_ne (fun hname => hown ⟨hidle,hname.symm⟩) _ _).trans hkept.symm
    · exact hkept.symm
  | prunes keepDays spared =>
    rw [step]
    simp only [pruned]
    split
    · rename_i hback
      dsimp only
      congr 1
      funext copy
      simp [hback]
    · rename_i hother
      simpa [hother] using hkept.symm
  | stops =>
    rw [step]
    split <;> exact hkept.symm
  | starts =>
    rw [step]
    split <;> exact hkept.symm
  | waits nanoseconds => exact hkept.symm
  | changes live => exact hkept.symm
  | fails => exact hkept.symm

theorem after_gone (moves : List (Move γ)) (h : s.copies name = none)
    (hown : Throughout (step stamp) (fun s move => ¬Writes stamp name s move) moves s) :
    (after (step stamp) moves s).copies name = none := by
  apply hown.keeps (fun s => s.copies name = none) _ h
  intro s move hgone hwrites
  rw [step_copies move hwrites, hgone]
  rfl

theorem after_stays_iff (moves : List (Move γ)) {copy : SafetyCopy γ}
    (h : s.copies name = some copy)
    (hown : Throughout (step stamp) (fun s move => ¬Writes stamp name s move) moves s) :
    (after (step stamp) moves s).copies name = some copy ↔
      Throughout (step stamp) (fun s move => pruned name copy.time s move = false) moves s := by
  induction moves generalizing s with
  | nil => exact ⟨fun _ => throughout_nil s,fun _ => h⟩
  | cons move moves ih =>
    obtain ⟨hfirst,hrest⟩ := (throughout_cons move moves s).mp hown
    have hstep := step_copies move hfirst
    rw [h] at hstep
    rw [after_cons, throughout_cons]
    cases hpruned : pruned name copy.time s move with
    | false =>
      have hthere : (step stamp s move).copies name = some copy := by
        rw [hstep, Option.filter_some, hpruned]
        rfl
      rw [ih hthere hrest]
      exact ⟨fun hlater => ⟨rfl,hlater⟩,And.right⟩
    | true =>
      have hgone : (step stamp s move).copies name = none := by
        rw [hstep, Option.filter_some, hpruned]
        rfl
      rw [after_gone moves hgone hrest]
      constructor
      · intro hsome
        cases hsome
      · rintro ⟨hfalse,-⟩
        cases hfalse

theorem safe_found (now : ℕ) : startsWith (safe stamp now) "emma-pre-" = true := by
  have hopening : "emma-pre-deploy-" = "emma-pre-" ++ "deploy-" := by decide
  show startsWith ("emma-pre-deploy-" ++ stamp now) "emma-pre-" = true
  rw [hopening, String.append_assoc]
  exact startsWith_append _ _

/-- The copy of a deploy is there as long as no deploy that brought the service back
finds it older than the days it keeps. -/
theorem safety_copy_stays_iff (left : Option γ → γ → γ) (moves : List (Move γ))
    (hidle : s.phase = .idle) (hfresh : s.copies (safe stamp s.now) = none)
    (hown : Throughout (step stamp) (fun m move => ¬Writes stamp (safe stamp s.now) m move) moves
      (step stamp s (.copies left))) :
    (after (step stamp) (.copies left::moves) s).copies (safe stamp s.now) =
        some ⟨s.now,left none s.live⟩ ↔
      ∀ early keepDays spared late, moves = early ++ .prunes keepDays spared::late →
        (after (step stamp) (.copies left::early) s).phase = .back →
          ((after (step stamp) (.copies left::early) s).now-s.now)/(86400*second) ≤ keepDays ∨
            spared (safe stamp s.now) = true := by
  have hthere : (step stamp s (.copies left)).copies (safe stamp s.now) =
      some ⟨s.now,left none s.live⟩ := by
    rw [step, if_pos hidle, copied, hfresh]
    exact Function.update_self _ _ _
  rw [after_cons, after_stays_iff moves hthere hown]
  constructor
  · intro hstays early keepDays spared late hmoves hback
    have hpruned := hstays early _ late hmoves
    rw [after_cons] at hback ⊢
    simp only [pruned, hback, expired, safe_found, decide_true, Bool.true_and,
      Bool.and_eq_false_imp, decide_eq_true_eq, Bool.not_eq_false'] at hpruned
    rw [← not_lt, or_iff_not_imp_left, not_not]
    exact hpruned
  · intro hyoung early move late hmoves
    cases move with
    | prunes keepDays spared =>
      have hkept := hyoung early keepDays spared late hmoves
      rw [after_cons] at hkept
      rw [pruned, expired, safe_found, Bool.true_and]
      by_cases hback : (after (step stamp) early (step stamp s (.copies left))).phase = .back
      · rcases hkept hback with hage | hspared
        · simp [hage]
        · simp [hspared]
      · simp [hback]
    | byHand other content => rfl
    | copies left => rfl
    | stops => rfl
    | starts => rfl
    | waits nanoseconds => rfl
    | changes live => rfl
    | fails => rfl

end

def afternoon : Server String := ⟨1756640000*second,"history",fun _ => none,.idle⟩

/-- The service was stopped and did not come back. -/
theorem failed_deploy_leaves_copy :
    (after (step fun _ => "20260831-133320") [.copies fun _ live => live,.stops,.fails]
      afternoon).copies "emma-pre-deploy-20260831-133320" =
        some ⟨1756640000*second,"history"⟩ := by
  refine (safety_copy_stays_iff (fun _ live => live) [.stops,.fails] rfl rfl ?_).mpr ?_
  · intro front move back hmoves
    have hmove : move ∈ [Move.stops,Move.fails] := by
      rw [hmoves]
      simp
    rcases List.mem_pair.mp hmove with rfl | rfl
    · exact id
    · exact id
  · intro early keepDays spared late hmoves
    have hmove : Move.prunes keepDays spared ∈ [(Move.stops : Move String),Move.fails] := by
      rw [hmoves]
      simp
    simp at hmove

end Emma.SafetyCopies
