import Emma.OwnTools
import Emma.WorldInvariants

/-!
# No way to be locked out

A name gets a row only as the stripped name of a registered tool that is not
protected. So the tools that show and undo what is off are always there, and
whatever has a row can be named to `enable_tool` as it stands.
-/

set_option autoImplicit false

namespace Emma.LockOut
open Emma.Python Emma.LanguageModel Emma.Orchestrator Emma.Facts Emma.ToolState
open Emma.DevelopmentTools Emma.ToolStateTools Emma.ToolGate Emma.OwnTools Emma.WorldInvariants

def Removable (names : List String) (x : String) : Prop :=
  x ∈ names ∧ x ∉ protectedNames ∧ x ≠ "" ∧ strip x = x

def Guarded (names : List String) (t : ToolStateTable) : Prop := ∀ x ∈ t.disabled, Removable names x

/-- A request of `remove_tool` gives a row to the name it asks for alone, and
only where that name is removable. -/
theorem removeTool_rows (clock : Clock) (names : List String) (arguments : Arguments) (s : Stores)
    (x : String) (h : x ∈ (RemoveTool.run clock names arguments s).2.toolState.disabled) :
    x ∈ s.toolState.disabled ∨ x = requestedName arguments ∧ Removable names x := by
  unfold RemoveTool.run at h
  dsimp only at h
  split at h
  · exact .inl h
  rename_i hwritten
  split at h
  · exact .inl h
  split at h
  · exact .inl h
  rename_i hknown
  split at h
  · exact .inl h
  rename_i hprotected
  have hremovable : Removable names (requestedName arguments) :=
    ⟨not_not.mp hknown,hprotected,hwritten,strip_strip _⟩
  rcases s.toolState.disable_rows (requestedName arguments) (strip (arguments.text "reason"))
    (clock s.readings) with ⟨hsame,hfalse,-⟩ | ⟨hrows,htrue,-⟩
  · rw [hfalse, if_neg (by decide), again_toolState, hsame] at h
    exact .inl h
  · rw [htrue, if_pos rfl] at h
    dsimp only at h
    rw [ToolStateTable.disabled, hrows, List.map_append, List.mem_append] at h
    rcases h with hbefore | hnew
    · exact .inl hbefore
    · obtain rfl := List.mem_singleton.mp hnew
      exact .inr ⟨rfl,hremovable⟩

/-- `enable_tool` gives no row to anything. -/
theorem enableTool_rows (arguments : Arguments) (s : Stores) (x : String)
    (h : x ∈ (EnableTool.run arguments s).2.toolState.disabled) : x ∈ s.toolState.disabled := by
  rcases enableTool_effect arguments s with hsame | hrows
  · rwa [hsame] at h
  · rw [hrows] at h
    exact ((ToolStateTable.enable_disabled _ _ _).mp h).1

theorem enableTool_clears (arguments : Arguments) (s : Stores) (hwritten : requestedName arguments ≠ "") :
    requestedName arguments ∉ (EnableTool.run arguments s).2.toolState.disabled := by
  have hgone : requestedName arguments ∉
      (s.toolState.enable (requestedName arguments)).2.disabled := by
    rw [ToolStateTable.enable_disabled]
    exact fun h => h.2 rfl
  unfold EnableTool.run
  dsimp only
  rw [if_neg hwritten]
  split <;> exact hgone

section
variable {ρ μ : Type}

def App.router (a : App ρ μ) (clock : Clock) : Router (World (FactTable × ρ)) μ :=
  (a.household clock).router clock

def names : List String := inventory.map Prod.fst

theorem app_tools (a : App ρ μ) (clock : Clock) :
    (App.router a clock).tools = (a.registered clock).map (Registered.tool clock names) := rfl

theorem app_toolNames (a : App ρ μ) (clock : Clock) :
    (App.router a clock).tools.map Tool.name = names := by
  rw [app_tools, List.map_map]
  exact (List.map_congr_left fun registered _ => Registered.tool_name clock names registered).trans
    (a.registered_names clock)

theorem tool_rows (a : App ρ μ) (clock : Clock) (tool : Tool (World (FactTable × ρ)))
    (htool : tool ∈ (App.router a clock).tools) (arguments : Arguments)
    (w : World (FactTable × ρ)) (x : String) (h : x ∈ (tool.run arguments w).2.off) :
    x ∈ w.off ∨ tool.name = RemoveTool.name ∧ x = requestedName arguments ∧ Removable names x := by
  rw [app_tools] at htool
  obtain ⟨registered,hregistered,rfl⟩ := List.mem_map.mp htool
  cases registered with
  | removeTool =>
    dsimp only [Registered.tool, Registered.onStores, World.off] at h
    exact (removeTool_rows clock names arguments w.stores x h).imp_right fun hnew => ⟨rfl,hnew⟩
  | enableTool =>
    dsimp only [Registered.tool, Registered.onStores, World.off] at h
    exact .inl (enableTool_rows arguments w.stores x h)
  | other tool =>
    have hsame := (a.household_fenced clock).tools tool hregistered arguments w
    left
    rw [World.off, ← hsame]
    exact h

theorem app_keeps (a : App ρ μ) (clock : Clock) :
    Keeps (App.router a clock) fun w => Guarded names w.stores.toolState where
  gate := fun w hw => hw
  llm := by
    intro request w hw
    have hsame : ((App.router a clock).llm request w).2.stores.toolState = w.stores.toolState :=
      a.confined request w
    rw [hsame]
    exact hw
  contextProviders := by
    intro provider hprovider w hw
    rw [(a.household_fenced clock).contextProviders provider hprovider w]
    exact hw
  tools := by
    intro tool htool arguments w hw x hx
    rcases tool_rows a clock tool htool arguments w x hx with hbefore | ⟨-,-,hremovable⟩
    · exact hw x hbefore
    · exact hremovable

theorem declared_of_on {ω : Type} (r : Router ω μ) (off : List String) (x : String)
    (hname : x ∈ r.tools.map Tool.name) (hon : x ∉ off) :
    ∃ declaration ∈ (r.toolSchemas off).getD [], declaration.name = x := by
  obtain ⟨tool,htool,rfl⟩ := List.mem_map.mp hname
  have hoffered : tool ∈ r.tools.filter fun tool => tool.name ∉ off := by
    rw [List.mem_filter]
    exact ⟨htool,decide_eq_true hon⟩
  unfold Router.toolSchemas
  cases hlist : r.tools.filter fun tool => tool.name ∉ off with
  | nil =>
    rw [hlist] at hoffered
    cases hoffered
  | cons first rest =>
    rw [hlist] at hoffered
    exact ⟨_,List.mem_map_of_mem hoffered,rfl⟩

theorem runs_of_on {ω : Type} (r : Router ω μ) (call : ToolUseBlock) (w : ω)
    (hname : call.name ∈ r.tools.map Tool.name) (hon : call.name ∉ (r.switchedOff w).1) :
    ∃ tool ∈ r.tools, tool.name = call.name ∧ (r.executeTool call w).1.invoked =
      some ⟨call.name,call.input,(r.switchedOff w).2,(tool.run call.input (r.switchedOff w).2).2⟩ ∧
      (r.executeTool call w).2 = (tool.run call.input (r.switchedOff w).2).2 := by
  obtain ⟨registered,hregistered,hsame⟩ := List.mem_map.mp hname
  unfold Router.executeTool
  dsimp only
  rw [if_neg hon]
  cases hfound : r.toolByName call.name with
  | none =>
    have hnone := List.find?_eq_none.mp hfound registered hregistered
    simp [hsame] at hnone
  | some tool =>
    have hnamed : tool.name = call.name := by simpa using List.find?_some hfound
    refine ⟨tool,List.mem_of_find?_eq_some hfound,hnamed,?_⟩
    dsimp only
    rw [← hnamed]
    rcases tool.run call.input (r.switchedOff w).2 with ⟨_ | _,after⟩ <;> exact ⟨rfl,rfl⟩

structure Available (r : Router (World (FactTable × ρ)) μ) (x : String)
    (w : World (FactTable × ρ)) : Prop where
  offered : ∃ declaration ∈ (r.toolSchemas (r.switchedOff w).1).getD [], declaration.name = x
  runs : ∀ call : ToolUseBlock, call.name = x →
    ∃ i, (r.executeTool call w).1.invoked = some i ∧ i.name = x

theorem available_of_on (a : App ρ μ) (clock : Clock) (x : String) (w : World (FactTable × ρ))
    (hname : x ∈ names) (hon : x ∉ w.off) : Available (App.router a clock) x w := by
  rw [← app_toolNames a clock] at hname
  constructor
  · exact declared_of_on (App.router a clock) w.off x hname hon
  · rintro call rfl
    obtain ⟨tool,-,-,hinvoked,-⟩ := runs_of_on (App.router a clock) call w hname hon
    exact ⟨_,hinvoked,rfl⟩

theorem executeTools_on (a : App ρ μ) (clock : Clock) (x : String) (calls : List ToolUseBlock)
    (w : World (FactTable × ρ)) (hon : x ∉ w.off)
    (hcalls : ∀ call ∈ calls, call.name = RemoveTool.name → requestedName call.input ≠ x) :
    x ∉ ((App.router a clock).executeTools calls w).2.off := by
  induction calls generalizing w with
  | nil => exact hon
  | cons call calls ih =>
    apply ih ((App.router a clock).executeTool call w).2
    · intro hoff
      rcases (App.router a clock).executeTool_cases call w with
        ⟨text,hrefused⟩ | ⟨tool,htool,hname,-,text,isError,hran⟩
      · rw [hrefused] at hoff
        exact hon hoff
      · rw [hran] at hoff
        rcases tool_rows a clock tool htool call.input w x hoff with
          hbefore | ⟨hremove,hrequested,-⟩
        · exact hon hbefore
        · exact hcalls call List.mem_cons_self (hname.symm.trans hremove) hrequested.symm
    · exact fun other hother => hcalls other (List.mem_cons_of_mem call hother)

/-- What a world is like in which nobody is locked out: the protected tools have
no row, and a reply that asks for a tool that is off to be switched on, and not
off again, leaves it available to the round after. -/
structure NotLocked (a : App ρ μ) (clock : Clock) (w : World (FactTable × ρ)) : Prop where
  rowless : ∀ name ∈ protectedNames, name ∉ w.off
  available : ∀ name ∈ protectedNames, Available (App.router a clock) name w
  restored : ∀ x ∈ w.off, ∀ call : ToolUseBlock, call.name = EnableTool.name →
    call.input.text "name" = x →
    ∀ others : List ToolUseBlock,
      (∀ other ∈ others, other.name = RemoveTool.name → requestedName other.input ≠ x) →
    let after := ((App.router a clock).executeTools (call::others) w).2
    x ∉ after.off ∧ (x ∈ names → Available (App.router a clock) x after)

theorem protected_named : ∀ name ∈ protectedNames, name ∈ names := by decide

theorem enableTool_named : EnableTool.name ∈ protectedNames := by decide

theorem enable_call (a : App ρ μ) (clock : Clock) (w : World (FactTable × ρ))
    (hw : Guarded names w.stores.toolState) (call : ToolUseBlock)
    (hname : call.name = EnableTool.name) (hoff : call.input.text "name" ∈ w.off) :
    call.input.text "name" ∉ ((App.router a clock).executeTool call w).2.off := by
  obtain ⟨-,-,hwritten,hstripped⟩ := hw _ hoff
  have hrequested : requestedName call.input = call.input.text "name" := hstripped
  have hon : call.name ∉ ((App.router a clock).switchedOff w).1 := by
    rw [hname]
    exact fun henable => (hw _ henable).2.1 enableTool_named
  have hregistered : call.name ∈ (App.router a clock).tools.map Tool.name := by
    rw [app_toolNames, hname]
    exact protected_named _ enableTool_named
  obtain ⟨tool,htool,hnamed,-,hafter⟩ := runs_of_on (App.router a clock) call w hregistered hon
  rw [hafter]
  -- the only tool of that name is the one that deletes the row
  rw [app_tools] at htool
  obtain ⟨registered,hin,rfl⟩ := List.mem_map.mp htool
  rw [hname, Registered.tool_name] at hnamed
  cases registered with
  | removeTool =>
    have hdiffers : RemoveTool.name ≠ EnableTool.name := by decide
    exact absurd hnamed hdiffers
  | enableTool =>
    have hclears := enableTool_clears call.input w.stores (by rw [hrequested]; exact hwritten)
    rw [hrequested] at hclears
    dsimp only [Registered.tool, Registered.onStores, World.off]
    exact hclears
  | other tool =>
    have hnodup : ((a.registered clock).map Registered.name).Nodup := by
      rw [a.registered_names]
      decide
    have hlisted : .enableTool ∈ a.registered clock := by simp [App.registered]
    have hsame : (Registered.other tool).name =
        (Registered.enableTool : Registered (FactTable × ρ)).name := hnamed
    cases List.inj_on_of_nodup_map hnodup hin hlisted hsame

theorem guarded_notLocked (a : App ρ μ) (clock : Clock) (w : World (FactTable × ρ))
    (hw : Guarded names w.stores.toolState) : NotLocked a clock w where
  rowless := fun name hname hoff => (hw name hoff).2.1 hname
  available := fun name hname => available_of_on a clock name w (protected_named name hname)
    fun hoff => (hw name hoff).2.1 hname
  restored := by
    rintro x hoff call hname rfl others hothers
    have hon := executeTools_on a clock _ others _ (enable_call a clock w hw call hname hoff) hothers
    constructor
    · exact hon
    · intro hregistered
      exact available_of_on a clock _ _ hregistered hon

/-- A turn of the app, after what happened since the one before; only the two
tools write the table. -/
structure AppServing (ρ μ : Type) where
  app : App ρ μ
  meanwhile : Session (World (FactTable × ρ)) μ → Session (World (FactTable × ρ)) μ
  request : AssistantRequest
  untouched : ∀ s, (meanwhile s).world.stores.toolState = s.world.stores.toolState

def AppServing.turn (serving : AppServing ρ μ) (clock : Clock)
    (s : Session (World (FactTable × ρ)) μ) : Turn (World (FactTable × ρ)) μ :=
  (App.router serving.app clock).handle serving.request (serving.meanwhile s)

def turnWorlds {ω : Type} (turn : Turn ω μ) : List ω :=
  turn.rounds.flatMap (fun round => round.opened::
    (round.answers.filterMap Answer.invoked).flatMap fun i => [i.before,i.after]) ++
    [turn.session.world]

def reached (clock : Clock) : List (AppServing ρ μ) → Session (World (FactTable × ρ)) μ →
    List (World (FactTable × ρ))
  | [], s => [s.world]
  | serving::rest, s => s.world::(serving.meanwhile s).world::
      turnWorlds (serving.turn clock s) ++ reached clock rest (serving.turn clock s).session

def taken (clock : Clock) : List (AppServing ρ μ) → Session (World (FactTable × ρ)) μ →
    List (Turn (World (FactTable × ρ)) μ)
  | [], _ => []
  | serving::rest, s =>
    serving.turn clock s::taken clock rest (serving.turn clock s).session

/-- Every request of the turn declares the protected tools, and every call of
one was carried out. -/
def Served (turn : Turn (World (FactTable × ρ)) μ) : Prop :=
  ∀ round ∈ turn.rounds, ∀ name ∈ protectedNames,
    (∃ declaration ∈ round.request.tools.getD [], declaration.name = name) ∧
    ∀ answer ∈ round.answers, answer.call.name = name →
      ∃ i, answer.invoked = some i ∧ i.name = name

theorem meanwhile_guarded (serving : AppServing ρ μ) (s : Session (World (FactTable × ρ)) μ)
    (hs : Guarded names s.world.stores.toolState) :
    Guarded names (serving.meanwhile s).world.stores.toolState := by
  rw [serving.untouched]
  exact hs

/-- A turn is kept by its app, from where the time between the turns left it. -/
theorem turn_keeps (serving : AppServing ρ μ) (clock : Clock)
    (s : Session (World (FactTable × ρ)) μ) (hs : Guarded names s.world.stores.toolState) :
    Guarded names (serving.turn clock s).session.world.stores.toolState ∧
      ∀ round ∈ (serving.turn clock s).rounds, Steady (App.router serving.app clock)
        (fun w => Guarded names w.stores.toolState) round := by
  unfold AppServing.turn
  exact (app_keeps serving.app clock).handle serving.request _ (meanwhile_guarded serving s hs)

theorem turnWorlds_guarded (serving : AppServing ρ μ) (clock : Clock)
    (s : Session (World (FactTable × ρ)) μ) (hs : Guarded names s.world.stores.toolState) :
    ∀ w ∈ turnWorlds (serving.turn clock s), Guarded names w.stores.toolState := by
  obtain ⟨hlast,hrounds⟩ := turn_keeps serving clock s hs
  intro w hw
  rcases List.mem_append.mp hw with hw | hw
  · obtain ⟨round,hround,hw⟩ := List.mem_flatMap.mp hw
    have hsteady := hrounds round hround
    rcases List.mem_cons.mp hw with rfl | hw
    · exact hsteady.opened
    · obtain ⟨i,hi,hw⟩ := List.mem_flatMap.mp hw
      obtain ⟨answer,hanswer,hinvoked⟩ := List.mem_filterMap.mp hi
      obtain ⟨before,hbefore,hanswered⟩ := hsteady.answered answer hanswer
      rw [hanswered] at hinvoked
      obtain ⟨hin,hout⟩ := (app_keeps serving.app clock).invoked answer.call before hbefore i hinvoked
      simp only [List.mem_cons, List.not_mem_nil, or_false] at hw
      rcases hw with rfl | rfl
      · exact hin
      · exact hout
  · obtain rfl := List.mem_singleton.mp hw
    exact hlast

theorem turn_served (serving : AppServing ρ μ) (clock : Clock)
    (s : Session (World (FactTable × ρ)) μ) (hs : Guarded names s.world.stores.toolState) :
    Served (serving.turn clock s) := by
  obtain ⟨-,hrounds⟩ := turn_keeps serving clock s hs
  intro round hround name hname
  have hsteady := hrounds round hround
  constructor
  · rw [hsteady.declared]
    exact ((guarded_notLocked serving.app clock _ hsteady.opened).available name hname).offered
  · intro answer hanswer hcall
    obtain ⟨w,hw,hanswered⟩ := hsteady.answered answer hanswer
    rw [hanswered]
    exact ((guarded_notLocked serving.app clock w hw).available name hname).runs answer.call hcall

def allOn (s : Session (World (FactTable × ρ)) μ) : Session (World (FactTable × ρ)) μ :=
  { s with world := { s.world with stores := { s.world.stores with toolState := ∅ } } }

/-- From an empty table, nobody is locked out anywhere in a run, and every turn
of it declares and carries out the protected tools. -/
theorem nobody_is_locked_out (clock : Clock) (servings : List (AppServing ρ μ))
    (s : Session (World (FactTable × ρ)) μ) :
    (∀ w ∈ reached clock servings (allOn s), ∀ a : App ρ μ, NotLocked a clock w) ∧
      ∀ turn ∈ taken clock servings (allOn s), Served turn := by
  have hempty : Guarded names (allOn s).world.stores.toolState := by
    intro x hx
    cases hx
  generalize allOn s = s at hempty
  induction servings generalizing s with
  | nil =>
    constructor
    · intro w hw a
      obtain rfl := List.mem_singleton.mp hw
      exact guarded_notLocked a clock s.world hempty
    · intro turn hturn
      cases hturn
  | cons serving rest ih =>
    obtain ⟨hlast,-⟩ := turn_keeps serving clock s hempty
    obtain ⟨hreached,htaken⟩ := ih (serving.turn clock s).session hlast
    constructor
    · intro w hw a
      rw [reached, List.mem_append, List.mem_cons, List.mem_cons] at hw
      rcases hw with (rfl | rfl | hw) | hw
      · exact guarded_notLocked a clock s.world hempty
      · exact guarded_notLocked a clock _ (meanwhile_guarded serving s hempty)
      · exact guarded_notLocked a clock w (turnWorlds_guarded serving clock s hempty w hw)
      · exact hreached w hw a
    · intro turn hturn
      rw [taken, List.mem_cons] at hturn
      rcases hturn with rfl | hturn
      · exact turn_served serving clock s hempty
      · exact htaken turn hturn

end

def hastyApp : App ℕ Unit where
  llm _ w := (.ok (if w.rest.2 = 0 then hastyReply else ⟨[.text "Fatto."],some "end_turn"⟩),
    { w with rest := (w.rest.1,w.rest.2+1) })
  memory := ⟨fun _ _ => .ok [],fun _ _ _ _ => (.ok (),())⟩
  systemPrompt := ""
  maxToolIterations := defaultMaxToolIterations
  describeVersion _ := ""
  describeNow _ := ""
  confined _ _ := rfl

def hastyAppServing : AppServing ℕ Unit where
  app := hastyApp
  meanwhile := id
  request := ⟨"Togli l'orologio.","utente","casa"⟩
  untouched _ := rfl

def freshSession : Session (World (FactTable × ℕ)) Unit := ⟨⟨0,0,none,none⟩,(),.empty,∅,0⟩

theorem hasty_app_not_locked : ∃ w ∈ reached (fun n => n) [hastyAppServing] (allOn freshSession),
    w.off = [CurrentTime.name] ∧ NotLocked hastyApp (fun n => n) w := by
  obtain ⟨w,hw,hoff⟩ : ∃ w ∈ reached (fun n => n) [hastyAppServing] (allOn freshSession),
      w.off = [CurrentTime.name] := by
    refine ⟨(hastyAppServing.turn (fun n => n) (allOn freshSession)).session.world,?_,rfl⟩
    simp [reached]
  have hfree := nobody_is_locked_out (fun n => n) [hastyAppServing] freshSession
  exact ⟨w,hw,hoff,hfree.1 w hw hastyApp⟩

end Emma.LockOut
