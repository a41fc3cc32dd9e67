import Mathlib.Logic.Function.Basic
import MerlinC.Model.UpdateScript

/-! # Runs of the update script against a DNS provider

The provider keeps the records of the configured name, and any number of runs of the script talk
to it, one after another or with their steps interleaved: the cron entry and the run after a save
both exist. A request is either carried out and answered, or fails with nothing changed and no
record id in its reply. Every other command of a run may return anything.
-/

namespace MerlinC.Model

structure Record where
  id : Bytes
  value : Bytes
deriving DecidableEq

/-- The provider's records of the configured name, and where each run of the script is. -/
structure World where
  records : List Record
  script : ℕ → Script

/-- What happens next: run `run` gets a reply to a command, which for a request tells also whether
the provider carried it out. -/
inductive DnsEvent where
  | command (run : ℕ) (reply : Reply)
  | query (run : ℕ) (answered : Bool) (reply : Reply)
  | update (run : ℕ) (accepted : Bool) (reply : Reply)
  | add (run : ℕ) (accepted : Bool) (reply : Reply)
deriving DecidableEq

namespace World

/-- No run has done anything yet. -/
def start (cfg : Settings) (records : List Record) : World :=
  ⟨records, fun _ => UpdateScript.main cfg⟩

/-- One run goes on. -/
def goOn (w : World) (run : ℕ) (script : Script) : World :=
  { w with script := Function.update w.script run script }

def ids (w : World) : List Bytes := w.records.map (·.id)

open UpdateScript (getRecordid)

inductive Step : World → DnsEvent → World → Prop
  | command {w : World} {run : ℕ} {c : Command} {next : Reply → Script} {reply : Reply}
      (at_ : w.script run = .run c next) (other : ∀ request, c ≠ .fetch request) :
      Step w (.command run reply) (w.goOn run (next reply))
  | queryAnswered {w : World} {run : ℕ} {rr domain : Bytes} {next : Reply → Script} {reply : Reply}
      (at_ : w.script run = .run (.fetch (.query rr domain)) next)
      (told : getRecordid reply.output = w.ids) :
      Step w (.query run true reply) (w.goOn run (next reply))
  | queryFailed {w : World} {run : ℕ} {rr domain : Bytes} {next : Reply → Script} {reply : Reply}
      (at_ : w.script run = .run (.fetch (.query rr domain)) next)
      (told : getRecordid reply.output = []) :
      Step w (.query run false reply) (w.goOn run (next reply))
  | updateAccepted {w : World} {run : ℕ} {rr id value : Bytes} {next : Reply → Script}
      {reply : Reply} (at_ : w.script run = .run (.fetch (.update rr id value)) next)
      (known : id ∈ w.ids) :
      Step w (.update run true reply)
        { w.goOn run (next reply) with
          records := w.records.map fun r => if r.id = id then ⟨id, value⟩ else r }
  | updateFailed {w : World} {run : ℕ} {rr id value : Bytes} {next : Reply → Script}
      {reply : Reply} (at_ : w.script run = .run (.fetch (.update rr id value)) next) :
      Step w (.update run false reply) (w.goOn run (next reply))
  | addAccepted {w : World} {run : ℕ} {rr domain value id : Bytes} {next : Reply → Script}
      {reply : Reply} (at_ : w.script run = .run (.fetch (.add rr domain value)) next)
      (fresh : id ∉ w.ids) (told : getRecordid reply.output = [id]) :
      Step w (.add run true reply)
        { w.goOn run (next reply) with records := w.records ++ [⟨id, value⟩] }
  | addFailed {w : World} {run : ℕ} {rr domain value : Bytes} {next : Reply → Script}
      {reply : Reply} (at_ : w.script run = .run (.fetch (.add rr domain value)) next)
      (told : getRecordid reply.output = []) :
      Step w (.add run false reply) (w.goOn run (next reply))

end World

end MerlinC.Model
