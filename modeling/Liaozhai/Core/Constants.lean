/-!
# Constants

The texts of `liaozhai_core::constants` that a connection or the accept loop
writes, and the limits of the codec.
-/

namespace Liaozhai.Constants

set_option autoImplicit false

def version : String := "0.1.0"

def banner : String :=
  "\r\n  Liaozhai MUX \u804a\u9f4b \u2014 v" ++ version ++ "\r\n  Multi-User eXegesis\r\n\r\n"

def maxLineLength : Nat := 4096
def maxBufferSize : Nat := 10 * 1024 * 1024

def lineTooLongMsg : String := "Line too long; ignored.\r\n"
def bufferOverflowMsg : String := "Buffer overflow; disconnecting.\r\n"
def goodbyeMsg : String := "Until the next strange tale.\r\n"
def usernamePrompt : String := "Username: "
def passwordPrompt : String := "Password: "
def worldsHeader : String := "Available worlds:"
def emptyUsernameMsg : String := "Username cannot be empty.\r\n"
def emptyPasswordMsg : String := "Password cannot be empty.\r\n"
def worldSelectionNonNumericMsg : String := "Please enter a number.\r\n"
def worldSelectionOutOfRangeMsg : String := "Please enter a number between 1 and {n}.\r\n"
def welcomeTemplate : String := "Welcome, {username}.\r\n\r\n"
def worldSelectedTemplate : String :=
  "In v0.1, you would now be in {world}. Disconnecting.\r\n"
def worldSelectPromptTemplate : String := "Select a world (1-{n}, or 'quit'): "

def authFailedMsg : String := "Authentication failed.\r\n"
def authMaxRetriesMsg : String := "Too many failed attempts. Disconnecting.\r\n"
def authRateLimitedMsg : String := "Too many failed attempts from your IP. Try again later.\r\n"
def authInternalErrorMsg : String := "Authentication error. Please try again later.\r\n"

def iacWillEcho : List UInt8 := [0xFF, 0xFB, 0x01]
def iacWontEcho : List UInt8 := [0xFF, 0xFC, 0x01]

def serverFullMsg : String := "Server is full. Try again later.\r\n"
def shutdownMsg : String := "The studio closes for now. Until the next strange tale.\r\n"

end Liaozhai.Constants
