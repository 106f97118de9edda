import Mathlib.Data.List.Basic
import Leshiy.Lib.Run

/-!
# Handing a new TUN to the engine on Android

`LeshiyBridge` (`leshiy-mobile/src/bridge.rs`) runs one engine. The descriptor of the interface goes through
the slot `TUN_FD` (`leshiy-tun/src/sys/pending_fd.rs`), which `AndroidOps::start` and `reattach_device`
(`sys/android.rs`) empty, and the news of it through a `Notify`, for which the loop of `pump`
(`leshiy-tun/src/engine.rs`) waits.

The calls of the bridge hold its lock, so that one comes after the other. The engine does not take it:
between the two halves of `reattach_tun` it can do any of its steps. A `Notify` keeps one permit at most.
-/

namespace Leshiy.Mobile

open Leshiy.Lib

abbrev RawFd := Int

/-- Why the engine has ended: `no VpnService TUN fd was injected before {what} (set_tun_fd)`, or an error of the
device, of the netstack or of the accept loop. -/
inductive EngineError where
  | notInjected (what : String)
  | failed
  deriving DecidableEq, Repr

inductive EngineAt where
  /-- There is no engine. -/
  | off
  /-- It dials, and `PlatformOps.start` comes after that. -/
  | dialing
  /-- It waits in the `select!` of `pump`. -/
  | pumping (device : RawFd)
  /-- The signal is consumed and the old device dropped; `reattach_device` comes next. -/
  | reattaching
  | ended (e : EngineError)
  deriving DecidableEq, Repr

structure LeshiyBridge where
  /-- `inner` holds a session. -/
  running : Bool
  /-- `reattach_tun` has stored its descriptor and not yet signalled. -/
  calling : Bool
  /-- The permit of the session's `reattach`. -/
  reattach : Bool
  /-- `TUN_FD` -/
  pending : Option RawFd
  engine : EngineAt
  deriving DecidableEq, Repr

/-- A descriptor is put into the slot, is closed, or no device could be made of it. -/
inductive FdEvent where
  | injected (fd : RawFd)
  | closed (fd : RawFd)
  | unusable (fd : RawFd)
  deriving DecidableEq, Repr

/-- `accepted` is that the URI is valid and a runtime could be built, `created` that `create_as_async` made a
device. -/
inductive BridgeAct where
  | start (fd : RawFd) (accepted : Bool)
  | reattachTun (fd : RawFd)
  | notifyOne
  | stop
  | takeDevice (created : Bool)
  | notified
  | fail
  deriving DecidableEq, Repr

def closing : Option RawFd → List FdEvent
  | some fd => [.closed fd]
  | none => []

def EngineAt.device : EngineAt → Option RawFd
  | .pumping d => some d
  | _ => none

/-- The engine takes the slot's descriptor next. -/
def EngineAt.taking : EngineAt → Bool
  | .dialing | .reattaching => true
  | _ => false

def EngineAt.alive : EngineAt → Bool
  | .off | .ended _ => false
  | _ => true

/-- The host hands this descriptor over. -/
def BridgeAct.hands (fd : RawFd) : BridgeAct → Bool
  | .start fd' _ | .reattachTun fd' => fd' = fd
  | _ => false

/-- The descriptor is closed, or `create_as_async` has failed with it. -/
def FdEvent.gone (fd : RawFd) : FdEvent → Bool
  | .closed fd' | .unusable fd' => fd' = fd
  | .injected _ => false

namespace LeshiyBridge

def new : LeshiyBridge := ⟨false, false, false, none, .off⟩

/-- What `device_from_injected_fd` makes of the slot. -/
def deviceFromInjectedFd (b : LeshiyBridge) (what : String) (created : Bool) : LeshiyBridge × List FdEvent :=
  match b.pending with
  | none => ({ b with engine := .ended (.notInjected what) }, [])
  | some fd =>
    if created then ({ b with pending := none, engine := .pumping fd }, [])
    else ({ b with pending := none, engine := .ended .failed }, [.unusable fd])

def step (b : LeshiyBridge) : BridgeAct → Option (LeshiyBridge × List FdEvent)
  | .start fd accepted =>
    if b.calling then none
    else if b.running || !accepted then some (b, [.closed fd])
    else
      some ({ b with running := true, reattach := false, pending := some fd, engine := .dialing },
        closing b.pending ++ [.injected fd])
  | .reattachTun fd =>
    if b.calling then none
    else if !b.running then some (b, [.closed fd])
    else some ({ b with calling := true, pending := some fd }, closing b.pending ++ [.injected fd])
  | .notifyOne => if b.calling then some ({ b with calling := false, reattach := true }, []) else none
  | .stop => if b.calling then none else some (new, closing b.pending ++ closing b.engine.device)
  | .takeDevice created =>
    match b.engine with
    | .dialing => some (b.deviceFromInjectedFd "start" created)
    | .reattaching => some (b.deviceFromInjectedFd "reattach" created)
    | _ => none
  | .notified =>
    match b.engine with
    | .pumping d =>
      if b.reattach then some ({ b with reattach := false, engine := .reattaching }, [.closed d]) else none
    | _ => none
  | .fail =>
    match b.engine with
    | .pumping d => some ({ b with engine := .ended .failed }, [.closed d])
    | _ => none

/-- Everything a step can do. -/
inductive Effect (b : LeshiyBridge) : BridgeAct → LeshiyBridge → List FdEvent → Prop
  | refuseStart {fd : RawFd} {accepted : Bool} : Effect b (.start fd accepted) b [.closed fd]
  | start {fd : RawFd} (hcalling : b.calling = false) (hrunning : b.running = false) :
      Effect b (.start fd true)
        { b with running := true, reattach := false, pending := some fd, engine := .dialing }
        (closing b.pending ++ [.injected fd])
  | refuse {fd : RawFd} (hrunning : b.running = false) : Effect b (.reattachTun fd) b [.closed fd]
  | store {fd : RawFd} (hcalling : b.calling = false) (hrunning : b.running = true) :
      Effect b (.reattachTun fd) { b with calling := true, pending := some fd }
        (closing b.pending ++ [.injected fd])
  | signal (hcalling : b.calling = true) : Effect b .notifyOne { b with calling := false, reattach := true } []
  | stop (hcalling : b.calling = false) :
      Effect b .stop new (closing b.pending ++ closing b.engine.device)
  | missing {created : Bool} {what : String} (hengine : b.engine = .dialing ∨ b.engine = .reattaching)
      (hpending : b.pending = none) :
      Effect b (.takeDevice created) { b with engine := .ended (.notInjected what) } []
  | attach {fd : RawFd} (hengine : b.engine = .dialing ∨ b.engine = .reattaching)
      (hpending : b.pending = some fd) :
      Effect b (.takeDevice true) { b with pending := none, engine := .pumping fd } []
  | unusable {fd : RawFd} (hengine : b.engine = .dialing ∨ b.engine = .reattaching)
      (hpending : b.pending = some fd) :
      Effect b (.takeDevice false) { b with pending := none, engine := .ended .failed } [.unusable fd]
  | consume {d : RawFd} (hengine : b.engine = .pumping d) (hreattach : b.reattach = true) :
      Effect b .notified { b with reattach := false, engine := .reattaching } [.closed d]
  | fail {d : RawFd} (hengine : b.engine = .pumping d) :
      Effect b .fail { b with engine := .ended .failed } [.closed d]

variable {b b' : LeshiyBridge} {a : BridgeAct} {ev : List FdEvent}

theorem deviceFromInjectedFd_effect {what : String} {created : Bool}
    (hengine : b.engine = .dialing ∨ b.engine = .reattaching)
    (h : b.deviceFromInjectedFd what created = (b', ev)) : Effect b (.takeDevice created) b' ev := by
  unfold deviceFromInjectedFd at h
  cases hpending : b.pending with
  | none =>
    rw [hpending] at h
    cases h
    have hmissing := @Effect.missing b created what hengine hpending
    rwa [hpending] at hmissing
  | some fd =>
    rw [hpending] at h
    cases created with
    | true =>
      cases h
      exact .attach hengine hpending
    | false =>
      cases h
      exact .unusable hengine hpending

theorem step_effect (h : step b a = some (b', ev)) : Effect b a b' ev := by
  cases a with
  | start fd accepted =>
    simp only [step, Option.ite_none_left_eq_some, Bool.not_eq_true] at h
    obtain ⟨hcalling, h⟩ := h
    by_cases hrefused : (b.running || !accepted) = true
    · rw [if_pos hrefused] at h
      cases h
      exact .refuseStart
    · rw [if_neg hrefused] at h
      simp only [Bool.or_eq_true, Bool.not_eq_true', not_or, Bool.not_eq_true, Bool.not_eq_false] at hrefused
      obtain ⟨hrunning, rfl⟩ := hrefused
      cases h
      exact .start hcalling hrunning
  | reattachTun fd =>
    simp only [step, Option.ite_none_left_eq_some, Bool.not_eq_true] at h
    obtain ⟨hcalling, h⟩ := h
    cases hrunning : b.running with
    | false =>
      simp only [hrunning, Bool.not_false, if_true] at h
      cases h
      exact .refuse hrunning
    | true =>
      simp only [hrunning, Bool.not_true, Bool.false_eq_true, if_false] at h
      cases h
      have hstore := @Effect.store b fd hcalling hrunning
      rwa [hrunning] at hstore
  | notifyOne =>
    simp only [step, Option.ite_none_right_eq_some] at h
    obtain ⟨hcalling, h⟩ := h
    cases h
    exact .signal hcalling
  | stop =>
    simp only [step, Option.ite_none_left_eq_some, Bool.not_eq_true] at h
    obtain ⟨hcalling, h⟩ := h
    cases h
    exact .stop hcalling
  | takeDevice created =>
    simp only [step] at h
    split at h
    · next hengine =>
      exact deviceFromInjectedFd_effect (.inl hengine) (Option.some.inj h)
    · next hengine =>
      exact deviceFromInjectedFd_effect (.inr hengine) (Option.some.inj h)
    · cases h
  | notified =>
    simp only [step] at h
    split at h
    · next d hengine =>
      obtain ⟨hreattach, h⟩ := Option.ite_none_right_eq_some.mp h
      cases h
      exact .consume hengine hreattach
    · cases h
  | fail =>
    simp only [step] at h
    split at h
    · next d hengine =>
      cases h
      exact .fail hengine
    · cases h

/-! ## What becomes of a descriptor -/

/-- How often the host has handed the descriptor over. -/
def handed (fd : RawFd) (log : List (Taken LeshiyBridge BridgeAct FdEvent)) : Nat :=
  log.countP fun t => t.act.hands fd

/-- The slot and the device hold the descriptor so often. -/
def held (b : LeshiyBridge) (fd : RawFd) : Nat :=
  (closing b.pending ++ closing b.engine.device).countP (FdEvent.gone fd)

@[simp] theorem handed_snoc {fd : RawFd} {log : List (Taken LeshiyBridge BridgeAct FdEvent)}
    {t : Taken LeshiyBridge BridgeAct FdEvent} :
    handed fd (log ++ [t]) = handed fd log + if t.act.hands fd then 1 else 0 := by
  simp [handed, List.countP_append, List.countP_singleton]

@[simp] theorem countP_closing (o : Option RawFd) (fd : RawFd) :
    (closing o).countP (FdEvent.gone fd) = if o = some fd then 1 else 0 := by
  cases o <;> simp [closing, FdEvent.gone, List.countP_singleton]

/-- Without a session there is no engine. -/
theorem off_of_not_running {log : List (Taken LeshiyBridge BridgeAct FdEvent)} (h : Exec step new log b) :
    b.running = false → b.engine = .off := by
  refine h.state_inv (P := fun b => b.running = false → b.engine = .off) (fun _ => rfl) ?_
  intro b a b' ev hb hs hrunning
  cases step_effect hs with
  | refuseStart | refuse | signal => exact hb hrunning
  | start | store => simp_all
  | stop => rfl
  | missing hengine | attach hengine | unusable hengine => rcases hengine with h | h <;> simp_all
  | consume hengine | fail hengine => simp_all

/-- One step accounts for each descriptor. -/
theorem step_held {fd : RawFd} (hoff : b.running = false → b.engine = .off) (h : step b a = some (b', ev)) :
    held b' fd + ev.countP (FdEvent.gone fd) = held b fd + if a.hands fd then 1 else 0 := by
  cases step_effect h with
  | refuseStart | refuse => simp [FdEvent.gone, BridgeAct.hands, List.countP_singleton]
  | start hcalling hrunning =>
    simp [held, hoff hrunning, EngineAt.device, FdEvent.gone, BridgeAct.hands, List.countP_append]
    omega
  | store =>
    simp [held, FdEvent.gone, BridgeAct.hands, List.countP_append]
    omega
  | signal | stop => simp [held, new, EngineAt.device, BridgeAct.hands, List.countP_append]
  | missing hengine hpending | attach hengine hpending =>
    rcases hengine with h | h <;> simp [held, h, hpending, EngineAt.device, BridgeAct.hands, List.countP_append]
  | unusable hengine hpending =>
    rcases hengine with h | h <;>
      simp [held, h, hpending, EngineAt.device, FdEvent.gone, BridgeAct.hands, List.countP_append,
        List.countP_singleton]
  | consume hengine | fail hengine =>
    simp [held, hengine, EngineAt.device, FdEvent.gone, BridgeAct.hands, List.countP_append, List.countP_singleton]

/-- **No descriptor is lost.** As often as the host has handed it over, it is closed, has made no device, waits
in the slot or is the engine's device, however the calls and the engine's steps interleave. -/
theorem handed_accounted {log : List (Taken LeshiyBridge BridgeAct FdEvent)} (h : Exec step new log b)
    (fd : RawFd) : handed fd log = (shown log).countP (FdEvent.gone fd) + held b fd := by
  refine h.inv (P := fun log b => handed fd log = (shown log).countP (FdEvent.gone fd) + held b fd) rfl ?_
  intro log b a b' ev hr ih hs
  have hheld := @step_held _ _ _ _ fd (off_of_not_running hr) hs
  rw [handed_snoc, shown_snoc, List.countP_append, ih]
  simp only
  omega

/-! ## The last descriptor is the one attached -/

/-- What was put into the slot last. -/
def lastInjected (evs : List FdEvent) : Option RawFd :=
  evs.foldl (fun last e => match e with | .injected fd => some fd | _ => last) none

@[simp] theorem lastInjected_nil : lastInjected [] = none := rfl

@[simp] theorem lastInjected_injected {evs : List FdEvent} {fd : RawFd} :
    lastInjected (evs ++ [.injected fd]) = some fd := by
  simp [lastInjected]

theorem lastInjected_append {evs evs' : List FdEvent} (h : ∀ fd, .injected fd ∉ evs') :
    lastInjected (evs ++ evs') = lastInjected evs := by
  unfold lastInjected
  rw [List.foldl_append]
  generalize evs.foldl _ none = last
  induction evs' with
  | nil => rfl
  | cons e evs' ih =>
    have htail : ∀ fd, .injected fd ∉ evs' := fun fd hmem => h fd (List.mem_cons_of_mem _ hmem)
    cases e with
    | injected fd => exact absurd List.mem_cons_self (h fd)
    | closed fd | unusable fd => exact ih htail

@[simp] theorem lastInjected_closed {evs : List FdEvent} {fd : RawFd} :
    lastInjected (evs ++ [.closed fd]) = lastInjected evs :=
  lastInjected_append (by simp)

@[simp] theorem lastInjected_closing {evs : List FdEvent} {o : Option RawFd} {fd : RawFd} :
    lastInjected (evs ++ (closing o ++ [.injected fd])) = some fd := by
  rw [← List.append_assoc, lastInjected_injected]

/-- No call is under way and no signal is latched. -/
def settled (b : LeshiyBridge) : Bool := !b.calling && !b.reattach

/-- A call stores its descriptor while the engine pumps, and the engine consumes no signal before the call under
way has signalled. -/
def Apart (b : LeshiyBridge) : BridgeAct → Bool
  | .reattachTun _ => !b.engine.taking
  | .notified => !b.calling
  | _ => true

/-- The call under way signals, and the engine goes on. -/
def OwnStep : BridgeAct → Bool
  | .notifyOne | .takeDevice true | .notified => true
  | _ => false

/-- Slot, permit and device agree with the last descriptor. While the engine is about to take it, nothing is
latched; while it pumps, the slot holds it exactly if the engine is yet to be told. -/
def Agrees (b : LeshiyBridge) (last : Option RawFd) : Prop :=
  match b.engine with
  | .dialing | .reattaching => b.settled = true ∧ b.pending.isSome = true ∧ b.pending = last
  | .pumping d => if b.settled then last = some d else b.pending.isSome = true ∧ b.pending = last
  | .ended (.notInjected _) => False
  | _ => True

theorem agrees_step {evs : List FdEvent} (h : Agrees b (lastInjected evs)) (hok : Apart b a = true)
    (hs : step b a = some (b', ev)) : Agrees b' (lastInjected (evs ++ ev)) := by
  cases step_effect hs with
  | refuseStart | refuse => rwa [lastInjected_closed]
  | start hcalling => simp [Agrees, settled, hcalling]
  | store hcalling hrunning =>
    rw [lastInjected_closing]
    cases hengine : b.engine with
    | off => simp [Agrees]
    | dialing | reattaching => simp [Apart, hengine, EngineAt.taking] at hok
    | pumping d => simp [Agrees, settled]
    | ended e => cases e <;> simp_all [Agrees]
  | signal hcalling =>
    rw [List.append_nil]
    cases hengine : b.engine with
    | off => simp [Agrees]
    | dialing | reattaching => simp [Agrees, hengine, settled, hcalling] at h
    | pumping d => simpa [Agrees, hengine, settled, hcalling] using h
    | ended e => cases e <;> simp_all [Agrees]
  | stop => trivial
  | missing hengine hpending => rcases hengine with he | he <;> simp [Agrees, he, hpending] at h
  | @attach fd hengine hpending =>
    rw [List.append_nil]
    -- the slot's descriptor becomes the device, and nothing is latched
    have htaken : b.settled = true ∧ b.pending = lastInjected evs := by
      rcases hengine with he | he <;> exact (by simpa [Agrees, he] using h : _ ∧ _ ∧ _).imp_right And.right
    obtain ⟨hsettled, hlast⟩ := htaken
    have hsettled' : settled { b with pending := none, engine := .pumping fd } = true := hsettled
    simp [Agrees, hsettled', ← hlast, hpending]
  | unusable => trivial
  | consume hengine hreattach =>
    have hcalling : b.calling = false := by simpa [Apart] using hok
    rw [lastInjected_closed]
    simpa [Agrees, hengine, settled, hreattach, hcalling] using h
  | fail => trivial

theorem agrees_run {log : List (Taken LeshiyBridge BridgeAct FdEvent)} (h : Exec step new log b) :
    Steps (fun b a => Apart b a = true) log → Agrees b (lastInjected (shown log)) := by
  refine h.inv (P := fun log b => Steps (fun b a => Apart b a = true) log → Agrees b (lastInjected (shown log)))
    (fun _ => by simp [Agrees, new]) ?_
  intro log b a b' ev _ ih hs hok
  rw [steps_snoc] at hok
  rw [shown_snoc]
  exact agrees_step (ih hok.1) hok.2 hs

/-- The call under way and the engine lead there, without another call. -/
def Leads (b b' : LeshiyBridge) : Prop :=
  ∃ log, Exec step b log b' ∧ Steps (fun _ a => OwnStep a = true) log

theorem Leads.refl : Leads b b := ⟨[], .nil, steps_nil⟩

theorem Leads.head {b'' : LeshiyBridge} (hs : step b a = some (b', ev)) (hown : OwnStep a = true)
    (h : Leads b' b'') : Leads b b'' := by
  obtain ⟨log, hrun, hsteps⟩ := h
  refine ⟨[⟨b, a, ev⟩] ++ log, (Exec.nil.snoc hs).trans hrun, ?_⟩
  intro t ht
  rcases List.mem_append.mp ht with ht | ht
  · rw [List.mem_singleton] at ht
    subst ht
    exact hown
  · exact hsteps t ht

theorem step_takeDevice {fd : RawFd} (htaking : b.engine.taking = true) (hpending : b.pending = some fd) :
    step b (.takeDevice true) = some ({ b with pending := none, engine := .pumping fd }, []) := by
  cases hengine : b.engine with
  | dialing | reattaching => simp [step, hengine, deviceFromInjectedFd, hpending]
  | off | pumping d | ended e => simp [hengine, EngineAt.taking] at htaking

theorem step_takeDevice_missing (hengine : b.engine = .reattaching) (hpending : b.pending = none) :
    step b (.takeDevice true) = some ({ b with engine := .ended (.notInjected "reattach") }, []) := by
  simp [step, hengine, deviceFromInjectedFd, hpending]

theorem step_notified {d : RawFd} (hengine : b.engine = .pumping d) (hreattach : b.reattach = true) :
    step b .notified = some ({ b with reattach := false, engine := .reattaching }, [.closed d]) := by
  simp [step, hengine, hreattach]

theorem step_notifyOne (hcalling : b.calling = true) :
    step b .notifyOne = some ({ b with calling := false, reattach := true }, []) := by
  simp [step, hcalling]

/-- When the calls stop, an engine that agrees with them comes to pump the last descriptor's device. -/
theorem agrees_leads {last : Option RawFd} (h : Agrees b last) (halive : b.engine.alive = true) :
    ∃ b' d, Leads b b' ∧ b'.engine = .pumping d ∧ b'.settled = true ∧ last = some d := by
  -- a descriptor that is about to be taken
  have htake : ∀ {b : LeshiyBridge} {d : RawFd}, b.engine.taking = true → b.settled = true →
      b.pending = some d → ∃ b', Leads b b' ∧ b'.engine = .pumping d ∧ b'.settled = true :=
    fun htaking hsettled hpending => ⟨_, .head (step_takeDevice htaking hpending) rfl .refl, rfl, hsettled⟩
  -- a signal that is latched
  have hnotified : ∀ {b : LeshiyBridge} {d d' : RawFd}, b.engine = .pumping d' → b.calling = false →
      b.reattach = true → b.pending = some d → ∃ b', Leads b b' ∧ b'.engine = .pumping d ∧ b'.settled = true := by
    intro b d d' hengine hcalling hreattach hpending
    obtain ⟨b', hleads, hb'⟩ := htake (b := { b with reattach := false, engine := .reattaching }) rfl
      (by simp [settled, hcalling]) hpending
    exact ⟨b', .head (step_notified hengine hreattach) rfl hleads, hb'⟩
  cases hengine : b.engine with
  | off | ended e => simp [hengine, EngineAt.alive] at halive
  | dialing | reattaching =>
    simp only [Agrees, hengine] at h
    obtain ⟨hsettled, hsome, rfl⟩ := h
    obtain ⟨d, hpending⟩ := Option.isSome_iff_exists.mp hsome
    obtain ⟨b', hleads, hb', hsettled'⟩ := htake (by simp [hengine, EngineAt.taking]) hsettled hpending
    exact ⟨b', d, hleads, hb', hsettled', hpending⟩
  | pumping d' =>
    simp only [Agrees, hengine] at h
    by_cases hsettled : b.settled = true
    · rw [if_pos hsettled] at h
      exact ⟨b, d', .refl, hengine, hsettled, h⟩
    · rw [if_neg hsettled] at h
      obtain ⟨hsome, rfl⟩ := h
      obtain ⟨d, hpending⟩ := Option.isSome_iff_exists.mp hsome
      cases hcalling : b.calling with
      | true =>
        obtain ⟨b', hleads, hb', hsettled'⟩ :=
          hnotified (b := { b with calling := false, reattach := true }) hengine rfl rfl hpending
        exact ⟨b', d, .head (step_notifyOne hcalling) rfl hleads, hb', hsettled', hpending⟩
      | false =>
        have hreattach : b.reattach = true := by simpa [settled, hcalling] using hsettled
        obtain ⟨b', hleads, hb', hsettled'⟩ := hnotified hengine hcalling hreattach hpending
        exact ⟨b', d, hleads, hb', hsettled', hpending⟩

/-- A signal that comes after its descriptor was taken finds the slot empty. -/
theorem late_signal_leads {fd : RawFd} (htaking : b.engine.taking = true) (hcalling : b.calling = true)
    (hpending : b.pending = some fd) : ∃ b', Leads b b' ∧ b'.engine = .ended (.notInjected "reattach") := by
  have htake := step_takeDevice htaking hpending
  have hsignal := step_notifyOne (b := { b with pending := none, engine := .pumping fd }) hcalling
  have hconsume := step_notified (b := { b with
    pending := none, engine := .pumping fd, calling := false, reattach := true }) rfl rfl
  have hmissing := step_takeDevice_missing (b := { b with
    pending := none, engine := .reattaching, calling := false, reattach := false }) rfl rfl
  exact ⟨_, .head htake rfl (.head hsignal rfl (.head hconsume rfl (.head hmissing rfl .refl))), rfl⟩

/-- A step that is not `Apart` leaves a call under way whose descriptor the engine takes next. -/
theorem not_apart_late {last : Option RawFd} (h : Agrees b last) (hoff : b.running = false → b.engine = .off)
    (hs : step b a = some (b', ev)) (hok : Apart b a = false) :
    b'.engine.taking = true ∧ b'.calling = true ∧ ∃ fd, b'.pending = some fd := by
  cases step_effect hs with
  | refuseStart | start | signal | stop | missing | attach | unusable | fail => simp [Apart] at hok
  | refuse hrunning => simp [Apart, hoff hrunning, EngineAt.taking] at hok
  | @store fd => exact ⟨by simpa [Apart] using hok, rfl, fd, rfl⟩
  | consume hengine hreattach =>
    have hcalling : b.calling = true := by simpa [Apart] using hok
    have hpending : b.pending.isSome = true ∧ b.pending = last := by
      simpa [Agrees, hengine, settled, hcalling] using h
    exact ⟨rfl, hcalling, Option.isSome_iff_exists.mp hpending.1⟩

/-- **Each consumed signal finds a descriptor, and the last one is attached**, in every run in which no call of
`reattach_tun` overlaps the engine's way from the start, or from a signal, to the slot. The first step that breaks
this leads to the end of the engine, unless another call comes in between. -/
theorem reattach_finds_fd (log : List (Taken LeshiyBridge BridgeAct FdEvent)) (b : LeshiyBridge)
    (hrun : Exec step new log b) (hok : Steps (fun b a => Apart b a = true) log) :
    (b.engine = .reattaching → b.pending.isSome = true) ∧
      (∀ what, b.engine ≠ .ended (.notInjected what)) ∧
      (∀ d, b.engine = .pumping d → b.settled = true → lastInjected (shown log) = some d) ∧
      (b.engine.alive = true →
        ∃ b' d, Leads b b' ∧ b'.engine = .pumping d ∧ b'.settled = true ∧ lastInjected (shown log) = some d) ∧
      (∀ a b' ev, step b a = some (b', ev) → Apart b a = false →
        ∃ b'', Leads b' b'' ∧ b''.engine = .ended (.notInjected "reattach")) := by
  have hagrees := agrees_run hrun hok
  refine ⟨?_, ?_, ?_, agrees_leads hagrees, ?_⟩
  · intro hengine
    simp only [Agrees, hengine] at hagrees
    exact hagrees.2.1
  · intro what hengine
    simp only [Agrees, hengine] at hagrees
  · intro d hengine hsettled
    simpa [Agrees, hengine, hsettled] using hagrees
  · intro a b' ev hs hbroken
    obtain ⟨htaking, hcalling, fd, hpending⟩ := not_apart_late hagrees (off_of_not_running hrun) hs hbroken
    exact late_signal_leads htaking hcalling hpending

/-- Two interfaces one after the other while the engine pumps: the second one is attached. -/
theorem reattach_finds_fd_twice :
    ∃ log b, Exec step new log b ∧ b.pending = none ∧ b.engine = .pumping 5 ∧
      lastInjected (shown log) = some 5 ∧
      (∀ what, b.engine ≠ .ended (.notInjected what)) := by
  obtain ⟨log, b, hrun, hok, hengine, hpending, hlast⟩ := exec_reaches step new
    [.start 3 true, .takeDevice true, .reattachTun 4, .notifyOne, .reattachTun 5, .notifyOne, .notified,
      .takeDevice true]
    (fun log b => Steps (fun b a => Apart b a = true) log ∧ b.engine = .pumping 5 ∧ b.pending = none ∧
      lastInjected (shown log) = some 5)
    (by decide)
  exact ⟨log, b, hrun, hpending, hengine, hlast, (reattach_finds_fd log b hrun hok).2.1⟩

/-- An interface that comes while the engine dials: it is the one the engine starts on, and the signal, consumed
after that, finds the slot empty. -/
theorem reattach_while_dialing :
    ∃ log b, Exec step new log b ∧
      log.map Taken.act = [.start 3 true, .reattachTun 4, .notifyOne, .takeDevice true, .notified, .takeDevice true] ∧
      lastInjected (shown log) = some 4 ∧ b.engine = .ended (.notInjected "reattach") := by
  obtain ⟨log, b, hrun, hacts, hlast, hengine⟩ := exec_reaches step new
    [.start 3 true, .reattachTun 4, .notifyOne, .takeDevice true, .notified, .takeDevice true]
    (fun log b => log.map Taken.act =
        [.start 3 true, .reattachTun 4, .notifyOne, .takeDevice true, .notified, .takeDevice true] ∧
      lastInjected (shown log) = some 4 ∧ b.engine = .ended (.notInjected "reattach"))
    (by decide)
  exact ⟨log, b, hrun, hacts, hlast, hengine⟩

end LeshiyBridge

end Leshiy.Mobile
