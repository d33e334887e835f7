import Autodiff.Document.Value
import Autodiff.Options

/-!
# Settings as documents

A field that is left out has its default value.
-/

namespace Autodiff

open Document

def BuildOptions.toDocument (options : BuildOptions) : Document :=
  .object [("reuse_slots", .bool options.reuseSlots), ("cse", .bool options.shareValues)]

def BuildOptions.ofDocument? (document : Document) : Option BuildOptions := do
  let [reuse?, share?] ← document.record? ["reuse_slots", "cse"]
    | none
  let defaults : BuildOptions := {}
  return {
    reuseSlots := ← optional? defaults.reuseSlots bool? reuse?
    shareValues := ← optional? defaults.shareValues bool? share? }

def EvalOptions.toDocument (options : EvalOptions) : Document :=
  .object [("domain_policy", .string options.domainPolicy.ident),
    ("directions_per_sweep", .integer options.directionsPerSweep)]

def EvalOptions.ofDocument? (document : Document) : Option EvalOptions := do
  let [policy?, directions?] ← document.record? ["domain_policy", "directions_per_sweep"]
    | none
  let defaults : EvalOptions := {}
  return {
    domainPolicy :=
      ← optional? defaults.domainPolicy (variant? DomainPolicy.ident DomainPolicy.all) policy?
    directionsPerSweep := ← optional? defaults.directionsPerSweep word? directions? }

def SparsityOptions.toDocument (options : SparsityOptions) : Document :=
  .object [("backend", .string options.backend.ident)]

def SparsityOptions.ofDocument? (document : Document) : Option SparsityOptions := do
  let [backend?] ← document.record? ["backend"]
    | none
  let defaults : SparsityOptions := {}
  return {
    backend := ← optional? defaults.backend (variant? BackendKind.ident BackendKind.all) backend? }

def CodeOptions.toDocument (options : CodeOptions) : Document :=
  .object [("dialect", .string options.dialect.ident), ("real_type", .string options.realType),
    ("function_name", .string options.functionName)]

def CodeOptions.ofDocument? (document : Document) : Option CodeOptions := do
  let [dialect?, real?, name?] ← document.record? ["dialect", "real_type", "function_name"]
    | none
  let defaults : CodeOptions := {}
  return {
    dialect := ← optional? defaults.dialect (variant? Dialect.ident Dialect.all) dialect?
    realType := ← optional? defaults.realType string? real?
    functionName := ← optional? defaults.functionName string? name? }

end Autodiff
