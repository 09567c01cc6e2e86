/-
**Webhooks.**

A job may name a web address to which a summary of each finished run is posted.  A target that is no
web address is nobody's business here and is passed over.  What is sent depends on the job and the
run alone, and so does, given the reply, whether the delivery has failed; the network is a function
from requests to replies.

Main definitions:

* `Webhook.target?` — the web address of a job, if it names one;
* `Webhook.request?` — what is posted;
* `Webhook.Reply` — what comes back, `Webhook.judge` — what it means;
* `Webhook.deliver` — **a delivery**.

Main results:

* `Webhook.deliver_of_target_none` — without a web address nothing is sent and nothing fails.
-/

import Timetable.Json.Record

set_option autoImplicit false
set_option relaxedAutoImplicit false

namespace Timetable.Webhook

/-! ### Requests -/

/-- A text is a web address. -/
def isAddress (text : String) : Bool :=
  text.startsWith "http://" || text.startsWith "https://"

/-- **The web address of a job**: its target without the blanks around it, if that is one. -/
def target? (j : Job) : Option String :=
  (j.notifyTarget.map Text.trim).filter isAddress

/-- The summary of a run. -/
def payload (j : Job) (r : Run) : Json :=
  .obj [
    ("job_id", .str j.id),
    ("job_name", .str j.name),
    ("run_id", .str r.id),
    ("status", .str r.status.name),
    ("scheduled_for", .int r.scheduledFor),
    ("started_at", .int? r.startedAt),
    ("finished_at", .int? r.finishedAt),
    ("error", .str? r.error),
    ("result_summary", .str? r.resultSummary)]

/-- What is posted, and where to. -/
structure Request where
  /-- The web address. -/
  address : String
  /-- The body. -/
  body : Json
  deriving Repr

/-- **What is posted** about a run. -/
def request? (j : Job) (r : Run) : Option Request :=
  (target? j).map fun address => { address, body := payload j r }

/-! ### Replies -/

/-- What comes back. -/
inductive Reply where
  /-- Nobody was reached. -/
  | unreachable
  /-- An answer with a status code. -/
  | answer (code : Nat) (body : String)
  deriving Repr, DecidableEq

/-- The phrases that belong to status codes. -/
def phrases : List (Nat × String) :=
  [(100, "Continue"), (101, "Switching Protocols"), (102, "Processing"), (200, "OK"),
    (201, "Created"), (202, "Accepted"), (203, "Non Authoritative Information"),
    (204, "No Content"), (205, "Reset Content"), (206, "Partial Content"), (207, "Multi-Status"),
    (208, "Already Reported"), (226, "IM Used"), (300, "Multiple Choices"),
    (301, "Moved Permanently"), (302, "Found"), (303, "See Other"), (304, "Not Modified"),
    (305, "Use Proxy"), (307, "Temporary Redirect"), (308, "Permanent Redirect"),
    (400, "Bad Request"), (401, "Unauthorized"), (402, "Payment Required"), (403, "Forbidden"),
    (404, "Not Found"), (405, "Method Not Allowed"), (406, "Not Acceptable"),
    (407, "Proxy Authentication Required"), (408, "Request Timeout"), (409, "Conflict"),
    (410, "Gone"), (411, "Length Required"), (412, "Precondition Failed"),
    (413, "Payload Too Large"), (414, "URI Too Long"), (415, "Unsupported Media Type"),
    (416, "Range Not Satisfiable"), (417, "Expectation Failed"), (418, "I'm a teapot"),
    (421, "Misdirected Request"), (422, "Unprocessable Entity"), (423, "Locked"),
    (424, "Failed Dependency"), (425, "Too Early"), (426, "Upgrade Required"),
    (428, "Precondition Required"), (429, "Too Many Requests"),
    (431, "Request Header Fields Too Large"), (451, "Unavailable For Legal Reasons"),
    (500, "Internal Server Error"), (501, "Not Implemented"), (502, "Bad Gateway"),
    (503, "Service Unavailable"), (504, "Gateway Timeout"), (505, "HTTP Version Not Supported"),
    (506, "Variant Also Negotiates"), (507, "Insufficient Storage"), (508, "Loop Detected"),
    (510, "Not Extended"), (511, "Network Authentication Required")]

/-- The phrase of a status code. -/
def phrase (code : Nat) : String :=
  (phrases.lookup code).getD "<unknown status code>"

/-- A status code says that all went well. -/
def isSuccess (code : Nat) : Bool :=
  200 ≤ code && code < 300

/-- Why a delivery failed. -/
inductive DeliveryError where
  /-- Nobody was reached. -/
  | unreachable (address : String)
  /-- The answer says that something went wrong. -/
  | refused (address : String) (code : Nat) (body : String)
  deriving Repr, DecidableEq

/-- The wording of a failed delivery. -/
def DeliveryError.message : DeliveryError → String
  | unreachable address => "webhook request to " ++ address ++ " failed"
  | refused address code body =>
    "webhook " ++ address ++ " returned " ++ Text.natText code ++ " " ++ phrase code ++ ": " ++ body

/-- **What a reply means** for a delivery to an address. -/
def judge (address : String) : Reply → Except DeliveryError Unit
  | .unreachable => .error (.unreachable address)
  | .answer code body => if isSuccess code then .ok () else .error (.refused address code body)

/-! ### Deliveries -/

/-- **A delivery** through a network. -/
def deliver (network : Request → Reply) (j : Job) (r : Run) : Except DeliveryError Unit :=
  match request? j r with
  | none => .ok ()
  | some request => judge request.address (network request)

/-- Without a web address nothing is sent and nothing fails. -/
theorem deliver_of_target_none (network : Request → Reply) {j : Job} (r : Run)
    (h : target? j = none) : deliver network j r = .ok () := by
  simp [deliver, request?, h]

end Timetable.Webhook
