set_option autoImplicit false

namespace Loom

inductive IoError where
  | notFound
  | busy
  | alreadyExists
  | notDirectory
  | isDirectory
  | invalidArgument
  | nameTooLong
  | notEmpty
  | nulInPath
  | notRegular
  | notText
  | other (message : String)
deriving DecidableEq, Repr

def IoError.message : IoError → String
  | .notFound => "No such file or directory (os error 2)"
  | .busy => "Device or resource busy (os error 16)"
  | .alreadyExists => "File exists (os error 17)"
  | .notDirectory => "Not a directory (os error 20)"
  | .isDirectory => "Is a directory (os error 21)"
  | .invalidArgument => "Invalid argument (os error 22)"
  | .nameTooLong => "File name too long (os error 36)"
  | .notEmpty => "Directory not empty (os error 39)"
  | .nulInPath => "file name contained an unexpected NUL byte"
  | .notRegular => "the source path is neither a regular file nor a symlink to a regular file"
  | .notText => "stream did not contain valid UTF-8"
  | .other message => message

end Loom
