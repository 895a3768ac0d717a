/-!
# Faults of the machine

What can go wrong with files, text streams and programs, in the words of the system.
-/

namespace Transcode

/-- Why the machine cannot do something. -/
inductive SystemFault where
  | notFound
  | alreadyThere
  | notDirectory
  | isDirectory
  | nameTooLong
  | linkLoop
  | zeroByte
  | illFormedText
  | zeroByteArgument
deriving DecidableEq

def SystemFault.message : SystemFault → String
  | notFound => "No such file or directory (os error 2)"
  | alreadyThere => "File exists (os error 17)"
  | notDirectory => "Not a directory (os error 20)"
  | isDirectory => "Is a directory (os error 21)"
  | nameTooLong => "File name too long (os error 36)"
  | linkLoop => "Too many levels of symbolic links (os error 40)"
  | zeroByte => "file name contained an unexpected NUL byte"
  | illFormedText => "stream did not contain valid UTF-8"
  | zeroByteArgument => "nul byte found in provided data"

end Transcode
