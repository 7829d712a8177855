import RostamBench.Lib.Text
import RostamBench.Lib.Watched
import RostamBench.Netkv.Listeners
import RostamBench.Netkv.ResultLine
import RostamBench.Netkv.Summary

/-!
`netkv/kv_loopback.sh` as a program over the commands it runs.

`Loopback` has the sweep over values; here the script works on texts, as it does. The
output of `netkv` goes through `awk` to a row, the row through `$(...)` to the TSV and
through `read` to the error count, and the outputs of `ss` go through the check of
`Listeners`.

A command (`Cmd`) is answered by its environment, with its output or status, and with a
signal if one has come in meanwhile: `bash` runs the handler of a signal when the command
has ended, and the handler exits. Every exit goes through the `EXIT` trap, where the
handlers are still set. What `docker` answers to a `run` or an `rm` is not looked at.
-/

namespace RostamBench.Netkv.LoopbackRun

open Effects Shell Listeners
open Loopback (Check Key)
open Json (natText)

inductive Signal
  | int
  | term
  deriving DecidableEq, Repr

/-- The exit status of the handler. -/
def Signal.status : Signal → ℕ
  | .int => 130
  | .term => 143

inductive Cmd
  /-- Reading `aerospike-mem.conf`. -/
  | conf
  /-- `docker rm -f "$CN"`. -/
  | remove
  /-- `drun`, with the tail of the engine. -/
  | drun (e : String)
  /-- `wait_up` on the port of the engine. -/
  | waitUp (e : String)
  /-- `docker ps` finds the container. -/
  | ps (e : String)
  /-- The commands of `public_listeners`. -/
  | ss (c : Check)
  | netkv (k : Key) (rep : ℕ)
  /-- The pipeline of the summary, whose status nobody looks at. -/
  | summary

/-- What the script looks at of a command. -/
abbrev Cmd.Reply : Cmd → Type
  | .conf => List Char
  | .remove | .drun _ | .summary => Unit
  | .waitUp _ | .ps _ => Bool
  | .ss _ => Snapshot
  | .netkv _ _ => List Char

abbrev Answer (c : Cmd) : Type := c.Reply × Option Signal

/-- A part of the script; an error is an exit with that status. -/
abbrev Part (α : Type) := Prog Answer (Except ℕ α)

def run (c : Cmd) : Part c.Reply :=
  .op c fun a =>
    match a.2 with
    | none => .ret (.ok a.1)
    | some sig => .ret (.error sig.status)

def done {α : Type} (a : α) : Part α := .ret (.ok a)

def exit {α : Type} (status : ℕ) : Part α := .ret (.error status)

/-! ### The settings -/

/-- A word of an unquoted `$ENGINES` or `$CONNS`. -/
structure Word where
  text : String
  ne_nil : text.toList ≠ []
  no_blank : text.toList.any Awk.isBlank = false

/-- A word in which `awk -v` finds nothing to replace. An engine that `start_engine` knows
is one. -/
structure AwkWord extends Word where
  no_escape : '\\' ∉ text.toList

structure Settings where
  engines : List Word
  conns : List AwkWord
  repeats : ℕ
  /-- `GEN_PROCS`. -/
  gens : AwkWord
  locale : LineOrder

/-- `FAILURES`, and what stands in the TSV. -/
structure Vars where
  failures : ℕ
  tsv : List Char

def Vars.fail (st : Vars) : Vars := { st with failures := st.failures + 1 }

/-! ### The configuration of Aerospike -/

/-- What `sed` makes of a line; it replaces once. -/
def rewriteLine (line : List Char) : List Char :=
  Text.replaceFirst "address local".toList "address 127.0.0.1".toList
    (Text.replaceFirst "address any".toList "address 127.0.0.1".toList line)

/-- The lines of `$RUN/aerospike.conf`. -/
def rewrite (conf : List Char) : List (List Char) := (Awk.records conf).map rewriteLine

/-- `grep -qE 'address (any|local)'` on a line. -/
def binds (line : List Char) : Bool :=
  decide ("address any".toList <:+: line) || decide ("address local".toList <:+: line)

/-! ### The engines -/

/-- The arms of `start_engine`. -/
def known : List String :=
  ["rostam", "redis", "valkey", "dragonfly", "keydb", "memcached", "aerospike"]

/-- `start_engine`. -/
def startEngine (e : String) : Part Bool :=
  (run .remove).andThen fun _ =>
    if e ∈ known then
      (run (.drun e)).andThen fun _ =>
        (run (.waitUp e)).andThen fun up => if up then run (.ps e) else done false
    else done false

/-- `assert_no_new_public`. -/
def assertNoNewPublic (loc : LineOrder) (baseline : List Char) (c : Check) : Part Unit :=
  (run (.ss c)).andThen fun snap =>
    match check loc baseline snap with
    | .quiet => done ()
    | .ssFailed => exit 5
    | .exposed => (run .remove).andThen fun _ => exit 3

/-! ### A point -/

def awkPoint (cfg : Settings) (k : Key) (rep : ℕ) : ResultLine.Point where
  e := k.1.toList
  wl := k.2.1.toList
  c := k.2.2.toList
  gp := cfg.gens.text.toList
  rep := natText rep

/-- `row="$(awk ...)"`. -/
def rowOf (cfg : Settings) (k : Key) (rep : ℕ) (output : List Char) : List Char :=
  substitute ((ResultLine.awk (awkPoint cfg k rep) output).getD [])

/-- `${errs:-0}`; `errs` is the tenth variable. -/
def errsOf (row : List Char) : List Char :=
  if word '\t' row 9 = [] then ['0'] else word '\t' row 9

/-- What `point` does with the output of a repetition. -/
def Vars.record (cfg : Settings) (k : Key) (rep : ℕ) (st : Vars) (output : List Char) : Vars :=
  let row := rowOf cfg k rep output
  if row = [] then st.fail
  else
    let st := { st with tsv := st.tsv ++ row ++ ['\n'] }
    if gtZero (errsOf row) then st.fail else st

/-- `point`. -/
def point (cfg : Settings) (st : Vars) (k : Key) : Part Vars :=
  Prog.forEach
    (fun st rep => (run (.netkv k rep)).andThen fun output => done (st.record cfg k rep output))
    (List.range' 1 cfg.repeats) st

/-- The two loops over the points of an engine. -/
def points (cfg : Settings) (e : String) : List Key :=
  Loopback.workloads.flatMap fun wl => cfg.conns.map fun c => (e, wl, c.text)

/-! ### The script -/

/-- The body of the loop over the engines. -/
def engine (cfg : Settings) (baseline : List Char) (st : Vars) (e : String) : Part Vars :=
  (startEngine e).andThen fun up =>
    if up then
      (assertNoNewPublic cfg.locale baseline (.started e)).andThen fun _ =>
        (Prog.forEach (point cfg) (points cfg e) st).andThen fun st =>
          (run .remove).andThen fun _ => done st
    else (run .remove).andThen fun _ => done st.fail

/-- From the baseline snapshot to the last check. -/
def sweep (cfg : Settings) : Part Vars :=
  (run (.ss .baseline)).andThen fun snap =>
    match publicListeners cfg.locale snap with
    | none => exit 5
    | some out =>
        (Prog.forEach (engine cfg (substitute out)) (cfg.engines.map Word.text)
          { failures := 0, tsv := Summary.header ++ ['\n'] }).andThen fun st =>
            (assertNoNewPublic cfg.locale (substitute out) .sweepEnd).andThen fun _ =>
              (run .summary).andThen fun _ => done st

/-- `init`, as far as it can fail, and then the sweep. -/
def main (cfg : Settings) : Part Vars :=
  (run .conf).andThen fun conf => if (rewrite conf).any binds then exit 4 else sweep cfg

structure Outcome where
  exit : ℕ
  /-- The TSV the summary was made from, if the script got past it. -/
  summarised : Option (List Char)

def outcome : Except ℕ Vars → Outcome
  | .error status => { exit := status, summarised := none }
  | .ok st => { exit := if 0 < st.failures then 6 else 0, summarised := some st.tsv }

/-- The handler of a signal that comes in during the `EXIT` trap exits as well. -/
def Outcome.trapped (o : Outcome) : Option Signal → Outcome
  | none => o
  | some sig => { o with exit := sig.status }

/-- The script, with its `EXIT` trap. -/
def script (cfg : Settings) : Prog Answer Outcome :=
  (main cfg).bind fun r => .op .remove fun a => .ret ((outcome r).trapped a.2)

end RostamBench.Netkv.LoopbackRun
