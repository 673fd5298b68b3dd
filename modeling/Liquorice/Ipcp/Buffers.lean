import Liquorice.Ipcp.Model
import Liquorice.Lcp.Actions

/-!
# The actions of IPCP
-/

namespace Liquorice.Ipcp

open Threads Threads.Prog Pii
open Lcp

variable {s : Pii} {p : Lcp.Packet} {t : Trigger} {a : Action}

/-! ## Actions -/

/-- The action is taken to completion. -/
def act (a : Action) (s : Pii) : Pii := ((handleAction a).complete s).1

theorem act_parts (a : Action) (s : Pii) : act a s = a.parts.foldl (fun s a => act a s) s := by
  cases a <;> simp only [act, Action.parts, List.foldl_cons, List.foldl_nil, handleAction,
    complete_bind] <;> rfl

theorem complete_scr : (scr.complete s).1 =
    if s.piiRestartCounter > 0 then
      { { s with
            piiRestartCounter := s.piiRestartCounter - 1
            piiIdent := s.piiIdent + 1 }.timerRestart with
        sent := packet 1 (s.piiIdent + 1) s.reqOptions :: s.sent }
    else s := by
  rw [scr, complete_read_bind]
  split <;> rfl

theorem complete_str : (str.complete s).1 =
    if s.piiRestartCounter > 0 then
      { { s with
            piiRestartCounter := s.piiRestartCounter - 1
            piiIdent := s.piiIdent + 1 }.timerRestart with
        sent := packet 5 s.piiIdent [] :: s.sent }
    else s := by
  rw [str, complete_read_bind]
  split <;> rfl

/-! ## Events -/

/-- `handle_event` to completion. -/
theorem complete_handleEvent (t : Trigger) (s : Pii) :
    ((handleEvent t).complete s).1 =
      { (if (pppTrans t s.piiState).2.stopsTimer then (act (pppTrans t s.piiState).1 s).timerDetach
          else act (pppTrans t s.piiState).1 s) with
        piiState := (pppTrans t s.piiState).2 } := by
  rw [handleEvent, complete_read_bind, complete_bind]
  rfl

end Liquorice.Ipcp
