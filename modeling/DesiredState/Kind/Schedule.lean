import DesiredState.Kind.Pod

/-!
Jobs that start on a schedule.
-/
namespace DesiredState.Schema

@[reducible] def jobSpec : Fields := .ofList [
  optional "active_deadline_seconds" "activeDeadlineSeconds" (.leaf .int64),
  optional "backoff_limit" "backoffLimit" (.leaf .int32),
  optional "completions" "completions" (.leaf .int32),
  optional "parallelism" "parallelism" (.leaf .int32),
  optional "manual_selector" "manualSelector" (.leaf .flag),
  optional "selector" "selector" (.block labelSelector),
  required "template" "template" (.block podTemplate),
  optional "ttl_seconds_after_finished" "ttlSecondsAfterFinished" (.leaf .int32)]

@[reducible] def jobTemplate : Fields := .ofList [
  optional "metadata" "metadata" (.block metadata),
  expected "spec" "spec" (.block jobSpec)]

@[reducible] def cronJobSpec : Fields := .ofList [
  required "schedule" "schedule" (.leaf .text),
  optional "time_zone" "timeZone" (.leaf .text),
  optional "concurrency_policy" "concurrencyPolicy" (.leaf .text),
  optional "suspend" "suspend" (.leaf .flag),
  optional "starting_deadline_seconds" "startingDeadlineSeconds" (.leaf .int64),
  optional "successful_jobs_history_limit" "successfulJobsHistoryLimit" (.leaf .int32),
  optional "failed_jobs_history_limit" "failedJobsHistoryLimit" (.leaf .int32),
  required "job_template" "jobTemplate" (.block jobTemplate)]

end DesiredState.Schema
