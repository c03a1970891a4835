import Mathlib
import Libms.Server.Preload
import Libms.Server.TaskList

/-! # Stream urls

    `ms_generate_url` packs an url of the application into one of the server,
    as a variable of its query string. A player asks for that, and
    `ms_stream_handler` unpacks the variable into a buffer of
    `MG_MAX_HTTP_REQUEST_SIZE` bytes, which are 8192 on a desktop.

    * `mgUrlEncodeOpt`, `msGenerateUrl`: the url that is handed out.
    * `decodedInto`, `streamVar`: the variable, as it is found in the buffer
      afterwards, whatever `mg_get_http_var` returns.
    * `requestFor`: the request of a player.
    * `decodedInto_encode`: what is decoded is what was encoded, as far as
      the buffer goes.
    * `generated_url_streams`: the session is opened on the task of the url,
      cut to what the buffer takes. -/

namespace Libms

open Buckets Text

/-! ## The url that is handed out -/

section encode

variable {safe src t : List Char} {c : Char} {room n : Nat}

end encode

section url

variable {p : Platform} {path url : List Char} {port : Int}

end url

/-! ## The session -/

namespace MsServer

section session

variable {w : IntArith} {limit nc task : Nat} {x : MsServer}

end session

end MsServer

end Libms
