import Workbench.Archive
import Workbench.OrderedMap
import Workbench.Web.Address

/-! # Exchanges

A server answers a request or cannot be reached. What a client makes of that is a
parameter; the one that is at hand follows redirections or takes them as answers. A
client keeps the paths it has asked for.
-/

namespace Workbench.Web

/-- An answer: its status, its headers, and its content piece by piece. The
connection may break after the pieces. -/
structure Response where
  status : Nat := 200
  headers : List (Text × Text) := []
  body : List Content := []
  broken : Option Text := none
deriving DecidableEq, Inhabited

abbrev Reply := Except Text Response

abbrev Server := OrderedMap Text Reply

def notFound : Reply := .ok { status := 404 }

def Server.reply (s : Server) (path : Text) : Reply := s.getD path notFound

inductive Fault where
  | unreachable (reason : Text)
  | broken (reason : Text)
  /-- An answer of another status than success, and where it redirects to. -/
  | status (code : Nat) (address : Text) (location : Option Text)
  | tooManyRedirections
  | badLocation (i : InvalidAddress)
  | badAddress (i : InvalidAddress)
deriving DecidableEq

/-! ## Statuses -/

def phrases : List (Nat × String) :=
  [(100, "Continue"), (101, "Switching Protocols"), (102, "Processing"), (103, "Early Hints"),
    (200, "OK"), (201, "Created"), (202, "Accepted"), (203, "Non-Authoritative Information"),
    (204, "No Content"), (205, "Reset Content"), (206, "Partial Content"), (207, "Multi-Status"),
    (208, "Already Reported"), (226, "IM Used"), (300, "Multiple Choices"),
    (301, "Moved Permanently"), (302, "Found"), (303, "See Other"), (304, "Not Modified"),
    (305, "Use Proxy"), (307, "Temporary Redirect"), (308, "Permanent Redirect"),
    (400, "Bad Request"), (401, "Unauthorized"), (402, "Payment Required"), (403, "Forbidden"),
    (404, "Not Found"), (405, "Method Not Allowed"), (406, "Not Acceptable"),
    (407, "Proxy Authentication Required"), (408, "Request Timeout"), (409, "Conflict"),
    (410, "Gone"), (411, "Length Required"), (412, "Precondition Failed"),
    (413, "Request Entity Too Large"), (414, "Request-URI Too Long"),
    (415, "Unsupported Media Type"), (416, "Requested Range Not Satisfiable"),
    (417, "Expectation Failed"), (418, "I'm a teapot"), (421, "Misdirected Request"),
    (422, "Unprocessable Entity"), (423, "Locked"), (424, "Failed Dependency"),
    (425, "Too Early"), (426, "Upgrade Required"), (428, "Precondition Required"),
    (429, "Too Many Requests"), (431, "Request Header Fields Too Large"),
    (451, "Unavailable For Legal Reasons"), (500, "Internal Server Error"),
    (501, "Not Implemented"), (502, "Bad Gateway"), (503, "Service Unavailable"),
    (504, "Gateway Timeout"), (505, "HTTP Version Not Supported"),
    (506, "Variant Also Negotiates"), (507, "Insufficient Storage"), (508, "Loop Detected"),
    (510, "Not Extended"), (511, "Network Authentication Required")]

def phrase (code : Nat) : Text := ((phrases.lookup code).getD "" : String)

def statusKind (code : Nat) : Text :=
  match code / 100 with
  | 1 => "Informational response"
  | 3 => "Redirect response"
  | 4 => "Client error"
  | 5 => "Server error"
  | _ => "Invalid status code"

def isSuccess (code : Nat) : Bool := code / 100 == 2

def redirections : List Nat := [301, 302, 303, 307, 308]

def explanation (code : Nat) : Text :=
  Address.text ⟨Address.secure, "developer.mozilla.org",
    "/en-US/docs/Web/HTTP/Status/" ++ Text.ofNat code, none, none⟩

def statusMessage (code : Nat) (address : Text) (location : Option Text) : Text :=
  statusKind code ++ " '" ++ Text.ofNat code ++ " " ++ phrase code ++ "' for url '" ++ address ++
    "'\n" ++ (location.elim ([] : Text) fun l => "Redirect location: '" ++ l ++ "'\n") ++
    "For more information check: " ++ explanation code

def Fault.message : Fault → Text
  | unreachable reason => reason
  | broken reason => reason
  | status code address location => statusMessage code address location
  | tooManyRedirections => "Exceeded maximum allowed redirects."
  | badLocation i => "Invalid URL in location header: " ++ i.message ++ "."
  | badAddress i => i.message

namespace Response

def header? (r : Response) (name : Text) : Option Text :=
  (r.headers.find? fun h => Uri.lowerScheme h.1 = name).map (·.2)

def location? (r : Response) : Option Text :=
  if redirections.contains r.status then r.header? "location" else none

def content (r : Response) : Except Fault Content :=
  match r.broken with
  | some reason => .error (.broken reason)
  | none => .ok r.body.flatten

end Response

/-! ## Requests -/

structure Answered where
  address : Address
  response : Response
deriving DecidableEq

def redirectionLimit : Nat := 20

/-- Asks for an address, follows as many redirections as are left where they
are to be followed, and tells the paths asked for. -/
def Server.ask (s : Server) (follows : Bool) (left : Nat) (a : Address) :
    Except Fault Answered × List Text :=
  let path := a.plainPath
  match s.reply path with
  | .error reason => (.error (.unreachable reason), [path])
  | .ok r =>
    match r.location? with
    | none => (.ok ⟨a, r⟩, [path])
    | some location =>
      match a.resolve location, follows, left with
      | .error i, _, _ => (.error (.badLocation i), [path])
      | .ok _, false, _ => (.ok ⟨a, r⟩, [path])
      | .ok _, true, 0 => (.error .tooManyRedirections, [path])
      | .ok next, true, n + 1 =>
        let rest := s.ask follows n next
        (rest.1, path :: rest.2)

structure Options where
  base : Address
  follows : Bool := false
  agent : Option Text := none
  /-- The seconds after which an answer has to be there. -/
  timeout : Nat := 5
deriving DecidableEq

/-- What is made of a request for a resource, and the paths that are asked for then. -/
class Transport where
  fetch : Options → Server → Text → Except Fault Answered × List Text

export Transport (fetch)

/-- Asks below the base address and follows redirections. -/
def Server.fetch (o : Options) (s : Server) (reference : Text) :
    Except Fault Answered × List Text :=
  match o.base.below reference with
  | .error i => (.error (.badAddress i), [])
  | .ok a => s.ask o.follows redirectionLimit a

namespace Transport

scoped instance following : Transport := ⟨Server.fetch⟩

end Transport

structure Client where
  options : Options
  server : Server
  /-- The paths asked for. -/
  asked : List Text := []
  closed : Bool := false

namespace Client

def get [Transport] (c : Client) (reference : Text) : Except Fault Answered × Client :=
  let r := fetch c.options c.server reference
  (r.1, { c with asked := c.asked ++ r.2 })

def close (c : Client) : Client := { c with closed := true }

end Client

end Workbench.Web
