import RenderGateway.Json.Decoder

/-!
# The life of a job

A job is queued, then running, then in one of three terminal states. A queued
job may fail without running.
-/

namespace RenderGateway

inductive JobStatus
  | queued
  | running
  | done
  | error
  | partialSuccess
deriving DecidableEq, Repr

namespace JobStatus

def all : List JobStatus := [queued, running, done, error, partialSuccess]

def name : JobStatus → String
  | queued => "queued"
  | running => "running"
  | done => "done"
  | error => "error"
  | partialSuccess => "partial_success"

def ofName? (s : String) : Option JobStatus := all.find? fun j => j.name = s

def isTerminal : JobStatus → Bool
  | done | error | partialSuccess => true
  | queued | running => false

def canBecome : JobStatus → JobStatus → Bool
  | queued, running | queued, error => true
  | running, done | running, error | running, partialSuccess => true
  | _, _ => false

def toJson (s : JobStatus) : Json := .text s.name

def decoder : Json.Decoder JobStatus := Json.Decoder.name ofName?

end JobStatus

end RenderGateway
