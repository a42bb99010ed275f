import HealingGateway.Library.Texts
import HealingGateway.Queue

namespace HealingGateway.Main

open Programs Programs.Prog JsonText Queue

def noJob (jobId : String) : Exn := .http 404 ("no job " ++ Texts.repr jobId)

def getJob (jobId : String) (metadata : RequestMetadata) : Gateway Json := do
  let job ← Queue.get jobId
  match job with
  | none => throw (noJob jobId)
  | some job =>
    if job.metadata.tenant ≠ metadata.tenant then throw (noJob jobId)
    else return job.public

def adminDlq : Gateway Json := do
  let jobs ← Queue.dead 100
  return .obj [("count", .int jobs.length), ("jobs", .arr (jobs.map Job.public))]

end HealingGateway.Main
