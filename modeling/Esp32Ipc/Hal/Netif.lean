import Esp32Ipc.Framework.Run

/-!
# The Wi-Fi station

`on_wifi_event` answers a disconnect with another `esp_wifi_connect` while its retry count is below
`WIFI_MAX_RETRY`. The count is a static of `hal_netif.c`; `on_got_ip`, which tells the waiting task
that the network is there, does not touch it.
-/

namespace Esp32Ipc

open Framework

def wifiMaxRetry : Nat := 100

/-- The events of `WIFI_EVENT` that `on_wifi_event` tells apart. -/
inductive WifiEvent where
  | staStart
  | staDisconnected
  | other
  deriving DecidableEq, Repr

/-- The events of the default event loop. -/
inductive NetifEvent where
  | wifi (id : WifiEvent)
  | staGotIp
  deriving DecidableEq, Repr

/-- `s_retry_num`, and whether `GOT_IP_BIT` is set. -/
structure Netif where
  retryNum : Nat
  gotIp : Bool
  deriving DecidableEq, Repr

/-- Before `esp_wifi_start`. -/
def netifStart : Netif := ⟨0,false⟩

/-- `on_wifi_event`, with whether it calls `esp_wifi_connect`. -/
def onWifiEvent (s : Netif) : WifiEvent → Netif × Bool
  | .staStart => (s,true)
  | .staDisconnected =>
    if s.retryNum < wifiMaxRetry then ({ s with retryNum := s.retryNum + 1 },true) else (s,false)
  | .other => (s,false)

def onGotIp (s : Netif) : Netif := { s with gotIp := true }

def netifStep (s : Netif) : NetifEvent → Option Netif
  | .wifi id => some (onWifiEvent s id).1
  | .staGotIp => some (onGotIp s)

def Reconnects (events : List NetifEvent) : Prop :=
  ∀ m ∈ moments netifStep netifStart events, m.2 = .wifi .staDisconnected →
    (onWifiEvent m.1 .staDisconnected).2 = true

instance (events : List NetifEvent) : Decidable (Reconnects events) :=
  inferInstanceAs (Decidable (∀ m ∈ moments netifStep netifStart events, _ → _))

/-- No outage of the run has more disconnects than `WIFI_MAX_RETRY`. -/
def OutagesWithinBudget (events : List NetifEvent) : Prop :=
  ∀ outage ∈ events.splitOn .staGotIp, outage.count (.wifi .staDisconnected) ≤ wifiMaxRetry

instance (events : List NetifEvent) : Decidable (OutagesWithinBudget events) :=
  inferInstanceAs (Decidable (∀ outage ∈ events.splitOn .staGotIp,
    outage.count (.wifi .staDisconnected) ≤ wifiMaxRetry))

section Runs

variable {s t : Netif} {events : List NetifEvent}

theorem onWifiEvent_connects : (onWifiEvent s .staDisconnected).2 = true ↔
    s.retryNum < wifiMaxRetry := by
  rw [onWifiEvent]
  split <;> simp_all

theorem netifStep_retryNum {e : NetifEvent} (h : netifStep s e = some t) :
    t.retryNum = if e = .wifi .staDisconnected then min (s.retryNum + 1) (max s.retryNum wifiMaxRetry)
      else s.retryNum := by
  cases e with
  | staGotIp =>
    cases Option.some.inj h
    rfl
  | wifi id =>
    cases Option.some.inj h
    cases id with
    | staStart => rfl
    | other => rfl
    | staDisconnected =>
      rw [if_pos rfl,onWifiEvent]
      split <;> dsimp only <;> omega

/-- The count is that of all disconnects so far, whatever lay between them. -/
theorem netif_retryNum (h : runEvents netifStep netifStart events = some s) :
    s.retryNum = min (events.count (.wifi .staDisconnected)) wifiMaxRetry := by
  induction events, s, h using runEvents_induction with
  | nil => rfl
  | concat events s e t _ hstep ih =>
    rw [netifStep_retryNum hstep,ih,List.count_append,List.count_singleton]
    by_cases he : e = .wifi .staDisconnected
    · simp only [he,if_pos,beq_self_eq_true]
      omega
    · rw [if_neg he,if_neg (by simpa using he),add_zero]

theorem netif_runs (events : List NetifEvent) :
    ∃ s, runEvents netifStep netifStart events = some s := by
  induction events using List.reverseRecOn with
  | nil => exact ⟨_,rfl⟩
  | append_singleton events e ih =>
    obtain ⟨s,hs⟩ := ih
    cases e <;> exact ⟨_,runEvents_concat.mpr ⟨s,hs,rfl⟩⟩

theorem reconnects_concat (h : runEvents netifStep netifStart events = some s) (e : NetifEvent) :
    Reconnects (events ++ [e]) ↔
      Reconnects events ∧ (e = .wifi .staDisconnected → s.retryNum < wifiMaxRetry) := by
  simp only [Reconnects,moments_concat h,List.mem_append,List.mem_singleton,or_imp,forall_and,
    forall_eq,onWifiEvent_connects]

/-- Every disconnect is answered exactly when there are no more than `WIFI_MAX_RETRY` of them in the
whole run, however many of the outages were recovered from. -/
theorem netif_reconnects_iff (events : List NetifEvent) :
    Reconnects events ↔ events.count (.wifi .staDisconnected) ≤ wifiMaxRetry := by
  induction events using List.reverseRecOn with
  | nil => exact iff_of_true (by simp [Reconnects]) (Nat.zero_le _)
  | append_singleton events e ih =>
    obtain ⟨s,hs⟩ := netif_runs events
    rw [reconnects_concat hs,ih,netif_retryNum hs,List.count_append,List.count_singleton]
    by_cases he : e = .wifi .staDisconnected
    · simp only [he,if_pos,beq_self_eq_true,forall_const]
      omega
    · simp [he]

/-- A hundred and one outages of one disconnect each, every one recovered from: each is within the
budget, and the last disconnect is not answered. -/
theorem netif_givesUp :
    OutagesWithinBudget (.wifi .staStart ::
      (List.replicate 101 [NetifEvent.wifi .staDisconnected,.staGotIp]).flatten) ∧
    ¬Reconnects (.wifi .staStart ::
      (List.replicate 101 [NetifEvent.wifi .staDisconnected,.staGotIp]).flatten) := by
  constructor <;> decide +kernel

end Runs

end Esp32Ipc
