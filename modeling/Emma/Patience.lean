import Emma.HttpRequests
import Emma.Orchestrator

/-!
# How long a turn can wait

Each round of a turn is one climb of the provider's ladder. The calls of the client,
the requests they issue and the pauses of the ladder are counted beside the world that
the tools and the queue live in. How long a client sleeps before it repeats a request
by itself is not this program's, and is not counted.
-/

set_option autoImplicit false

namespace Emma.Patience
open Emma.Python Emma.LanguageModel Emma.Orchestrator Emma.RetryLadder Emma.HttpRequests

structure Metered (ω : Type) where
  world : ω
  calls : ℕ
  requests : ℕ
  slept : ℚ

structure SdkCall (client : SdkClient) (α : Type) where
  outcome : CallOutcome α
  repeats : ℕ
  most : repeats ≤ client.maxRetries

structure Provider (ω α : Type) where
  client : SdkClient
  ladder : Ladder
  sleeps : ∀ attempt, attempt < ladder.maxAttempts → ¬Breaks ladder.backoffSeconds attempt
  create : LLMRequest → ω → (ℕ → SdkCall client α) × ω
  read : α → LLMResponse

section
variable {ω μ α β : Type}

/-- What does not call the model is not counted. -/
def unmetered (f : ω → β × ω) (m : Metered ω) : β × Metered ω :=
  ((f m.world).1,{ m with world := (f m.world).2 })

def issued {client : SdkClient} (calls : ℕ → SdkCall client α) : ℕ → ℕ
  | 0 => 0
  | n+1 => issued calls n+((calls (n+1)).repeats+1)

def Provider.complete (c : Provider ω α) (request : LLMRequest) (m : Metered ω) :
    Except LLMError LLMResponse × Metered ω :=
  match c.create request m.world with
  | (calls,w) =>
    let climbed := RetryLadder.run c.ladder fun n => (calls n).outcome
    let made := climbed.trace.count .call
    (match climbed.result with
      | .ok (raw,_) => .ok (c.read raw)
      | .error (.llm e) => .error e
      -- never, as `Provider.run_told` has it
      | .error _ => .error (.unavailable ""),
      ⟨w,m.calls+made,m.requests+issued calls made,m.slept+(pauses climbed.trace).sum⟩)

def meteredTool (tool : Tool ω) : Tool (Metered ω) :=
  ⟨tool.name,tool.description,tool.inputSchema,fun arguments => unmetered (tool.run arguments)⟩

theorem meteredTools_distinct (tools : List (Tool ω)) (h : postInit tools = .ok ()) :
    postInit (tools.map meteredTool) = .ok () := by
  have hnames : (tools.map meteredTool).map Tool.name = tools.map Tool.name := by
    rw [List.map_map]
    rfl
  rw [postInit, hnames]
  exact h

def metered (r : Router ω μ) (c : Provider ω α) : Router (Metered ω) μ where
  llm := c.complete
  memory := r.memory
  systemPrompt := r.systemPrompt
  tools := r.tools.map meteredTool
  contextProviders := r.contextProviders.map unmetered
  toolGate := r.toolGate.map unmetered
  maxToolIterations := r.maxToolIterations
  clock m := r.clock m.world
  distinct := meteredTools_distinct r.tools r.distinct

def Provider.patience (c : Provider ω α) : ℚ :=
  c.ladder.backoffSeconds.seconds*(2^(c.ladder.maxAttempts-1)-1)

structure Within (c : Provider ω α) (rounds : ℕ) (m m' : Metered ω) : Prop where
  calls : m'.calls ≤ m.calls+rounds*c.ladder.maxAttempts
  requests : m'.requests ≤ m.requests+rounds*(c.ladder.maxAttempts*(c.client.maxRetries+1))
  slept : m'.slept ≤ m.slept+rounds*c.patience

theorem Within.refl (c : Provider ω α) (m : Metered ω) : Within c 0 m m :=
  ⟨by omega,by omega,by simp⟩

theorem Within.trans {c : Provider ω α} {a b : ℕ} {m m' m'' : Metered ω} (h : Within c a m m')
    (h' : Within c b m' m'') : Within c (a+b) m m'' := by
  have hcalls := h.calls
  have hcalls' := h'.calls
  have hrequests := h.requests
  have hrequests' := h'.requests
  have hslept := h.slept
  have hslept' := h'.slept
  constructor
  · rw [Nat.add_mul]
    omega
  · rw [Nat.add_mul]
    omega
  · push_cast
    linarith

theorem patience_nonneg (c : Provider ω α) : 0 ≤ c.patience := by
  have hpower : (1 : ℚ) ≤ 2^(c.ladder.maxAttempts-1) := one_le_pow₀ (by norm_num)
  exact mul_nonneg (Base.seconds_nonneg _) (by linarith)

theorem Within.mono {c : Provider ω α} {a b : ℕ} {m m' : Metered ω} (h : Within c a m m')
    (hle : a ≤ b) : Within c b m m' where
  calls := h.calls.trans (Nat.add_le_add_left (Nat.mul_le_mul_right _ hle) _)
  requests := h.requests.trans (Nat.add_le_add_left (Nat.mul_le_mul_right _ hle) _)
  slept := by
    have hmore : (a : ℚ)*c.patience ≤ b*c.patience :=
      mul_le_mul_of_nonneg_right (by exact_mod_cast hle) (patience_nonneg c)
    linarith [h.slept]

theorem issued_le {client : SdkClient} (calls : ℕ → SdkCall client α) (n : ℕ) :
    issued calls n ≤ n*(client.maxRetries+1) := by
  induction n with
  | zero => exact Nat.zero_le _
  | succ n ih =>
    have hrepeats := (calls (n+1)).most
    rw [issued, Nat.add_mul, Nat.one_mul]
    omega

/-- With finite pauses the ladder leaves with a reply or an error of its own. -/
theorem Provider.run_told (c : Provider ω α) (calls : ℕ → CallOutcome α) (e : Raised)
    (h : (RetryLadder.run c.ladder calls).result = .error e) : ∃ own, e = .llm own := by
  obtain ⟨n,hclimb⟩ := run_climbsTo c.ladder calls
  have hsums : Sums c.ladder n := by
    have hlast := c.sleeps (c.ladder.maxAttempts-1)
    rw [Sums]
    cases hbase : c.ladder.backoffSeconds with
    | int seconds => trivial
    | float x =>
      rw [hbase, Breaks] at hlast
      dsimp only
      by_contra hmany
      rw [not_or] at hmany
      exact hlast (by omega) (.inl (by omega))
  have hjudges : Judges c.ladder n (calls n) := by
    cases calls n with
    | rateLimit text retryAfter => exact hsums
    | _ => trivial
  have htold := hclimb.told ⟨hjudges,fun _ => c.sleeps n⟩
  rw [h] at htold
  cases houtcome : calls n with
  | success reply =>
    rw [houtcome] at htold
    cases htold
  | _ =>
    rw [houtcome] at htold
    obtain ⟨text,htext⟩ := htold
    exact ⟨_,Except.error.inj htext⟩

theorem complete_within (c : Provider ω α) (request : LLMRequest) (m : Metered ω) :
    Within c 1 m (c.complete request m).2 := by
  rcases hcreate : c.create request m.world with ⟨calls,w⟩
  obtain ⟨n,hclimb⟩ := run_climbsTo c.ladder fun n => (calls n).outcome
  have hreached := hclimb.reached.2
  have hmade : (RetryLadder.run c.ladder fun n => (calls n).outcome).trace.count .call = n := by
    have := hclimb.made
    omega
  have hslept := hclimb.slept
  have hpower : (2 : ℚ)^(n-1) ≤ 2^(c.ladder.maxAttempts-1) :=
    pow_le_pow_right₀ (by norm_num) (by omega)
  have hpaused : (pauses (RetryLadder.run c.ladder fun n => (calls n).outcome).trace).sum ≤
      c.patience := by
    rw [hslept, Nat.sub_self, pow_zero]
    exact mul_le_mul_of_nonneg_left (by linarith) (Base.seconds_nonneg _)
  have hissued := (issued_le calls n).trans (Nat.mul_le_mul_right _ hreached)
  simp only [Provider.complete, hcreate]
  rw [hmade]
  constructor
  · dsimp only
    omega
  · dsimp only
    omega
  · dsimp only
    push_cast
    linarith

/-! Nothing else of a turn is counted. -/

section
variable (r : Router ω μ) (c : Provider ω α)

theorem unmetered_within (f : ω → β × ω) (m : Metered ω) : Within c 0 m (unmetered f m).2 :=
  ⟨(Within.refl c m).calls,(Within.refl c m).requests,(Within.refl c m).slept⟩

theorem contextLines_within (providers : List (ω → Outcome String × ω)) (m : Metered ω) :
    Within c 0 m (contextLines (providers.map unmetered) m).2 := by
  induction providers generalizing m with
  | nil => exact Within.refl c m
  | cons provider rest ih =>
    have hfirst := unmetered_within c provider m
    rw [List.map_cons, contextLines]
    rcases hprovider : unmetered provider m with ⟨e | snapshot,m'⟩
    · rw [hprovider] at hfirst
      exact hfirst.trans (ih m')
    · rw [hprovider] at hfirst
      exact hfirst.trans (ih m')

theorem switchedOff_within (m : Metered ω) : Within c 0 m ((metered r c).switchedOff m).2 := by
  rw [Router.switchedOff, metered]
  cases r.toolGate with
  | none => exact Within.refl c m
  | some disabled =>
    have hread := unmetered_within c disabled m
    dsimp only [Option.map_some]
    rcases hdisabled : unmetered disabled m with ⟨e | names,m'⟩
    · rw [hdisabled] at hread
      exact hread
    · rw [hdisabled] at hread
      exact hread

theorem executeTool_within (call : ToolUseBlock) (m : Metered ω) :
    Within c 0 m ((metered r c).executeTool call m).2 := by
  have hgate := switchedOff_within r c m
  rcases (metered r c).executeTool_cases call m with
    ⟨text,hrefused⟩ | ⟨tool,htool,-,-,text,isError,hran⟩
  · rw [hrefused]
    exact hgate
  · rw [hran]
    obtain ⟨plain,-,rfl⟩ := List.mem_map.mp htool
    exact hgate.trans (unmetered_within c (plain.run call.input) _)

theorem executeTools_within (calls : List ToolUseBlock) (m : Metered ω) :
    Within c 0 m ((metered r c).executeTools calls m).2 := by
  induction calls generalizing m with
  | nil => exact Within.refl c m
  | cons call rest ih => exact (executeTool_within r c call m).trans (ih _)

theorem agenticLoop_within (system : String) (left : ℕ) (messages : List Message)
    (m : Metered ω) :
    Within c left m ((metered r c).agenticLoop system left messages m).2.1 := by
  induction left generalizing messages m with
  | zero => exact Within.refl c m
  | succ left ih =>
    have hgate := switchedOff_within r c m
    rw [Router.agenticLoop]
    rcases hoff : (metered r c).switchedOff m with ⟨off,opened⟩
    rw [hoff] at hgate
    dsimp only
    have hcall := complete_within c ⟨system,messages,(metered r c).toolSchemas off⟩ opened
    rw [show c.complete = (metered r c).llm from rfl] at hcall
    rcases hreply : (metered r c).llm ⟨system,messages,(metered r c).toolSchemas off⟩ opened with
      ⟨e | reply,replied⟩
    · rw [hreply] at hcall
      exact (hgate.trans hcall).mono (by omega)
    · rw [hreply] at hcall
      have hround := hgate.trans hcall
      dsimp only
      split
      · exact hround.mono (by omega)
      · have htools := executeTools_within r c reply.toolUses replied
        rcases hran : (metered r c).executeTools reply.toolUses replied with ⟨answers,ran⟩
        rw [hran] at htools
        exact ((hround.trans htools).trans (ih _ ran)).mono (by omega)

/-- In a turn the model is called at most as often as all rounds have attempts, each call
issues at most the requests it may repeat, and all pauses of the ladder together are at
most those of as many ladders climbed to the end. -/
theorem turn_is_patient (request : AssistantRequest) (s : Session (Metered ω) μ) :
    Within c r.maxToolIterations s.world ((metered r c).handle request s).session.world := by
  have hcontext : Within c 0 s.world ((metered r c).systemPromptNow s.world).2 := by
    rw [(metered r c).systemPromptNow_world]
    exact contextLines_within c r.contextProviders s.world
  have hloop := agenticLoop_within r c ((metered r c).systemPromptNow s.world).1
    r.maxToolIterations (((metered r c).readHistory request.conversationId s.memory).map toWire ++
      [userMessage request.text]) ((metered r c).systemPromptNow s.world).2
  rw [((metered r c).handle_loop request s).2]
  exact (hcontext.trans hloop).mono (by omega)

end
end

end Emma.Patience
